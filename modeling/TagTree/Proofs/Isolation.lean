import TagTree.Proofs.Course
import TagTree.Proofs.Parallel

/-!
# Isolation of builders

What a program does to other builders leaves a builder as it is, in the middle of its blocks
too. So fragments that work on other builders can be put anywhere into the blocks of a
builder: it builds the same, and has the same to report.
-/

namespace TagTree

/-! ### Frames -/

/-- The reserve of one builder's record. -/
def Reserve.only (b : BuilderRef) : Reserve := ⟨(· = .builder b), fun _ => False⟩

section Frames

variable {b : BuilderRef} {s t : State} {caller : Caller} {inside inside' : CallerHolds}

theorem Reserve.held_only (h : (Object.builder b).In s.world) : (Reserve.only b).Held s := by
  rintro o rfl
  exact h

theorem World.Leaves.spares {w v : World} (h : w.Leaves v) (hb : (Object.builder b).In w) :
    w.Spares (Reserve.only b).objects v where
  element _ := nofun
  list _ := nofun
  dict _ := nofun
  builder c hc := by
    cases hc
    have found : w.builder? b = some w.builders[b.index] := Array.getElem?_eq_getElem hb
    rw [h.builder b _ found, found]
  grows := h.grows
  host := h.host

theorem After.imp {α : Type} {ran : Outcome α × State}
    {goesOn goesOn' : Except Fault α → State → Prop} (h : After ran goesOn)
    (himp : ∀ r, goesOn r ran.2 → goesOn' r ran.2) : After ran goesOn' := by
  obtain ⟨x, t⟩ := ran
  cases x with
  | value a => exact himp _ h
  | fault f => exact himp _ h
  | exhausted => trivial

/-- Steady programs that call nothing on a builder leave its record alone. -/
theorem Program.Abides.only {α : Type} {p : Program α} (steady : p.Steady)
    (sparing : Sparing (.only b) caller inside')
    (imp : ∀ c args named s, (Reserve.only b).Held s → inside c args named s →
      inside' c args named s)
    (held : (Reserve.only b).Held s) (h : p.Abides (.except b) caller inside s) :
    p.Abides (Reserve.only b).permit caller inside' s := by
  -- the builder is still there at every state on the way, so steady deeds leave it as it is
  have unreserved {c : BuilderRef} (hc : c ≠ b) : ¬ (Reserve.only b).objects (.builder c) :=
    fun h => hc (Object.builder.inj h)
  induction p generalizing s with
  | done x => trivial
  | act d next ih =>
    have spared : s.Spares (.only b) (d s).2 :=
      { world := (steady.1 s).spares (held _ rfl)
        binding := fun _ => False.elim
        builder := fun _ => False.elim }
    exact ⟨spared, h.2.imp fun r hr => ih r (steady.2 r) (spared.held held) hr⟩
  | attach e change next ih =>
    have spared := attachContent_spares (R := .only b) s (e := e) nofun change
    exact ⟨nofun, h.2.imp fun r hr => ih r (steady r) (spared.held held) hr⟩
  | tag c name args named next ih =>
    obtain ⟨hc, inner, rest⟩ := h
    have inner' := fun k block hk hblock => imp _ _ _ _
      (((createElement_spares held (unreserved hc) k).trans
        (enterBlock_spares _ (unreserved hc))).held held) (inner k block hk hblock)
    have spared := tagCall_spares sparing held (unreserved hc) inner'
    exact ⟨unreserved hc, inner', rest.imp fun r hr => ih r (steady r) (spared.held held) hr⟩
  | build c block next ih =>
    obtain ⟨hc, inner, rest⟩ := h
    have inner' := fun k hk => imp _ _ _ _
      ((startBuild_spares s (unreserved hc)).held held) (inner k hk)
    have spared := build_spares sparing held (unreserved hc) inner'
    exact ⟨unreserved hc, inner', rest.imp fun r hr => ih r (steady r) (spared.held held) hr⟩
  | apply c args named next ih =>
    have inner := imp _ _ _ _ held h.1
    have spared := sparing c args named s held inner
    exact ⟨inner, h.2.imp fun r hr => ih r (steady r) (spared.held held) hr⟩

theorem abidesWithin_only {code : Code} (steady : code.Steady) (n : Nat)
    (c : Callable Value) (args : List Value) (named : List (String × Value)) (s : State)
    (held : (Reserve.only b).Held s) (h : abidesWithin (.except b) code n c args named s) :
    abidesWithin (Reserve.only b).permit code n c args named s := by
  induction n generalizing c args named s with
  | zero => trivial
  | succ n ih =>
    exact Program.Abides.only (steady c args named) (sparing_callWithin _ code n) ih held h

theorem builder_unchanged {code : Code} (steady : code.Steady) {α : Type} {p : Program α}
    (hp : p.Steady) (hb : (Object.builder b).In s.world) {n : Nat}
    (h : p.Abides (.except b) (callWithin code n) (abidesWithin (.except b) code n) s) :
    (p.run (callWithin code n) s).2.world.builder? b = s.world.builder? b := by
  have held := Reserve.held_only hb
  have sparing := sparing_callWithin (.only b) code n
  exact (Program.spares_run sparing held
    (h.only hp sparing (abidesWithin_only steady n) held)).world.builder b rfl

end Frames

/-! ### Fragments -/

/-- A program and the same one with fragments inserted: at any points, their values dropped
and their faults swallowed. -/
inductive Interspersed (aside : Program Value → Prop) {α : Type} : Program α → Program α → Prop
  | done (x : Outcome α) : Interspersed aside (.done x) (.done x)
  | act {β : Type} (d : Proc State β) {next next' : Except Fault β → Program α}
      (rest : ∀ r, Interspersed aside (next r) (next' r)) :
      Interspersed aside (.act d next) (.act d next')
  | attach (e : ElementRef) (change : Element → Except Fault Element)
      {next next' : Except Fault Unit → Program α}
      (rest : ∀ r, Interspersed aside (next r) (next' r)) :
      Interspersed aside (.attach e change next) (.attach e change next')
  | tag (b : BuilderRef) (name : Value) (args : List Value) (named : List (String × Value))
      {next next' : Except Fault ElementRef → Program α}
      (rest : ∀ r, Interspersed aside (next r) (next' r)) :
      Interspersed aside (.tag b name args named next) (.tag b name args named next')
  | build (b : BuilderRef) (block : Value) {next next' : Except Fault ElementRef → Program α}
      (rest : ∀ r, Interspersed aside (next r) (next' r)) :
      Interspersed aside (.build b block next) (.build b block next')
  | apply (c : Callable Value) (args : List Value) (named : List (String × Value))
      {next next' : Except Fault Value → Program α}
      (rest : ∀ r, Interspersed aside (next r) (next' r)) :
      Interspersed aside (.apply c args named next) (.apply c args named next')
  | fragment (f : Program Value) (kind : aside f) {p q : Program α}
      (rest : Interspersed aside p q) :
      Interspersed aside p (f.observe >>= fun _ => q)

section Fragments

variable {names : String → Prop} {aside : Program Value → Prop} {α β : Type} {ρ : Matching}
  {R : Matching → α → β → Prop} {code code' : Code}

theorem Interspersed.refl (p : Program α) : Interspersed aside p p := by
  induction p with
  | done x => exact .done x
  | act d next ih => exact .act d ih
  | attach e change next ih => exact .attach e change ih
  | tag b name args named next ih => exact .tag b name args named ih
  | build b block next ih => exact .build b block ih
  | apply c args named next ih => exact .apply c args named ih

/-- Programs that are alike without fragments are alike with them. -/
theorem Program.Alike.intersperse {p : Program α} {p' q : Program β}
    (h : Program.Alike names (fun _ => False) R ρ p p') (hq : Interspersed aside p' q) :
    Program.Alike names aside R ρ p q := by
  -- on the fragments; what is alike to the program without them is turned over at each deed
  induction hq generalizing p ρ with
  | done x =>
    generalize hx : Program.done x = p' at h
    cases h with
    | spent => exact .spent
    | value same =>
      cases hx
      exact .value same
    | fault same =>
      cases hx
      exact .fault same
    | insert f kind => exact kind.elim
    | _ => cases hx
  | act d rest ih =>
    generalize hx : Program.act d _ = p' at h
    cases h with
    | spent => exact .spent
    | act S deed next =>
      cases hx
      exact .act S deed fun σ r r' le hr => ih r' (next σ r r' le hr)
    | insert f kind => exact kind.elim
    | _ => cases hx
  | attach e change rest ih =>
    generalize hx : Program.attach e change _ = p' at h
    cases h with
    | spent => exact .spent
    | attach element changes next =>
      cases hx
      exact .attach element changes fun σ r r' le hr => ih r' (next σ r r' le hr)
    | insert f kind => exact kind.elim
    | _ => cases hx
  | tag b name args named rest ih =>
    generalize hx : Program.tag b name args named _ = p' at h
    cases h with
    | spent => exact .spent
    | tag builder called given givenNamed next =>
      cases hx
      exact .tag builder called given givenNamed fun σ r r' le hr => ih r' (next σ r r' le hr)
    | insert f kind => exact kind.elim
    | _ => cases hx
  | build b block rest ih =>
    generalize hx : Program.build b block _ = p' at h
    cases h with
    | spent => exact .spent
    | build builder given next =>
      cases hx
      exact .build builder given fun σ r r' le hr => ih r' (next σ r r' le hr)
    | insert f kind => exact kind.elim
    | _ => cases hx
  | apply c args named rest ih =>
    generalize hx : Program.apply c args named _ = p' at h
    cases h with
    | spent => exact .spent
    | apply callable given givenNamed next =>
      cases hx
      exact .apply callable given givenNamed fun σ r r' le hr => ih r' (next σ r r' le hr)
    | insert f kind => exact kind.elim
    | _ => cases hx
  | fragment f kind rest ih => exact .insert f kind (ih h)

/-- A fragment that, in states alike to those of a run, leaves alone what the run uses: the
objects that are matched and the names. -/
def KeepsOff (names : String → Prop) (base : Matching) (code' : Code)
    (fragment : Program Value) : Prop :=
  ∀ ρ s t n, base ≤ ρ → State.Like names ρ s t →
    fragment.Abides (ρ.reserve names).permit (callWithin code' n)
      (abidesWithin (ρ.reserve names).permit code' n) t

/-- A fragment that comes to an end in such states, with some fuel. -/
def Ends (names : String → Prop) (base : Matching) (code' : Code) (more : Nat)
    (fragment : Program Value) : Prop :=
  ∀ ρ s t n, base ≤ ρ → State.Like names ρ s t → more ≤ n →
    (fragment.run (callWithin code' n) t).1 ≠ .exhausted

theorem KeepsOff.fragmentsSpare {base : Matching} {lost : Prop} {more n : Nat} (hn : more ≤ n)
    (off : ∀ f, aside f → KeepsOff names base code' f)
    (ends : lost ∨ ∀ f, aside f → Ends names base code' more f) :
    FragmentsSpare names lost base aside (callWithin code' n) := by
  intro f ρ s t kind le hs
  constructor
  · intro spent
    rcases ends with hl | ends
    · exact hl
    · exact absurd spent (ends f kind ρ s t n le hs hn)
  · exact hs.spared (Program.spares_run (sparing_callWithin _ code' n) hs.held
      (off f kind ρ s t n le hs))

/-- A build that ended, and another one that ended the same up to matched objects: with faults
of one kind about like values, or with like trees. What the first one writes, the other one
writes too. -/
inductive Undisturbed (names : String → Prop) (base : Matching) (b : BuilderRef) :
    Outcome ElementRef × State → Outcome ElementRef × State → Prop
  | fault {ρ f g s t} (le : base ≤ ρ) (state : State.Like names ρ s t) (same : Fault.Like ρ f g)
      (kind : f.kind = g.kind) (report : (s.world.faultReport f).Below (t.world.faultReport g))
      (accounts : SameAccounts b b s t) : Undisturbed names base b (.fault f, s) (.fault g, t)
  | value {ρ e f s t} (le : base ≤ ρ) (state : State.Like names ρ s t)
      (tree : ∀ x, s.world.store.tree? e = some x →
        ∃ y, t.world.store.tree? f = some y ∧ ElementTree.Like ρ x y)
      (text : (s.world.renderBuilder b).Below (t.world.renderBuilder b))
      (accounts : SameAccounts b b s t) : Undisturbed names base b (.value e, s) (.value f, t)

theorem undisturbed_of_endsAlike {base : Matching} {b : BuilderRef} (hb : base.Builders b b)
    {lost : Prop} {x y : Outcome ElementRef × State} (hx : x.1 ≠ .exhausted)
    (hy : lost → y.1 ≠ .exhausted)
    (h : EndsAlike (State.Like names) lost Matching.Elements base x y) :
    Undisturbed names base b x y := by
  cases h with
  | spent => exact absurd rfl hx
  | lost hl => exact absurd rfl (hy hl)
  | value le state same =>
    have hb' := Matching.rel_of_le le hb
    exact .value le state (fun _ ht => state.world.tree same ht)
      (state.world.renderBuilderWith (fun _ _ => state.world.write) hb') (.of_like state hb')
  | fault le state same =>
    exact .fault le state same same.kind (state.world.faultReport same)
      (.of_like state (Matching.rel_of_le le hb))

theorem build_undisturbed {base : Matching} {b : BuilderRef} (hb : base.Builders b b)
    (same : Code.Alike names (fun _ => False) base code code)
    (inserted : ∀ c args named, Interspersed aside (code c args named) (code' c args named))
    (off : ∀ f, aside f → KeepsOff names base code' f) {s : State}
    (closed : State.Like names base s s) {k : Callable Value} (block : Callable.Like base k k)
    {n more : Nat} (hx : (build (callWithin code n) b (.callable k) s).1 ≠ .exhausted)
    (hy : (build (callWithin code' (n + more)) b (.callable k) s).1 ≠ .exhausted ∨
      ∀ f, aside f → Ends names base code' more f) :
    Undisturbed names base b (build (callWithin code n) b (.callable k) s)
      (build (callWithin code' (n + more)) b (.callable k) s) := by
  have alike : Code.Alike names aside base code code' := by
    intro ρ c c' args args' named named' le hc ha hn
    exact (same ρ c c' args args' named named' le hc ha hn).intersperse (inserted c' args' named')
  -- whether the second run may be lost depends on whether its fragments are known to end
  let lost := (build (callWithin code' (n + more)) b (.callable k) s).1 ≠ .exhausted
  have calls : CallersAlike names lost base (callWithin code n) (callWithin code' (n + more)) :=
    callWithin_alike alike more
      (fun m => KeepsOff.fragmentsSpare (Nat.le_add_left more m) off hy) n
  exact undisturbed_of_endsAlike hb hx id (build_alike calls le_rfl closed hb block)

end Fragments

/-! ### Calls -/

section Calls

variable {code : Code} {m m' : Machine} {b d : BuilderRef} {name : Value} {args : List Value}
  {named : List (String × Value)} {next : Except Fault ElementRef → Program Value} {c : TagCall}

theorem builder?_enterBlock_other (s : State) (h : d ≠ b) :
    (enterBlock b s).world.builder? d = s.world.builder? d :=
  (World.Alters.updateBuilder s.world b Builder.enterBlock).other h.symm

/-- An admitted call is logged by its builder, at the number of that builder's own blocks that
run. Other builders do not notice. -/
theorem call_logged (hm : Reachable code m) (program : m.program = .tag b name args named next)
    (admitted : m.state.world.admitCall b name args named = .value c) (move : Move code m m') :
    ∃ session session', m.state.world.session? b = some session ∧
      m'.state.world.session? b = some session' ∧
      session'.log = session.log ++
        [((running b m.stack).length, (m.state.world.create b c).1)] ∧
      ∀ d, d ≠ b → m'.state.world.builder? d = m.state.world.builder? d := by
  obtain ⟨session, hs⟩ := session_of_admitCall admitted
  obtain ⟨created, building⟩ := (orderly_of_reachable hm b).2.building_of_session hs
  have stands := World.create_stands c building.stands
  rw [building.depth] at stands
  have others (d : BuilderRef) (hd : d ≠ b) :
      (m.state.world.create b c).2.builder? d = m.state.world.builder? d :=
    (World.create_alters m.state.world b c).other hd.symm
  cases move with
  | refusedCall refused =>
    cases program
    rw [admitted] at refused
    cases refused
  | unreadCall unread =>
    cases program
    rw [admitted] at unread
    cases unread
  | created admitted' leaf =>
    cases program
    rw [admitted, Outcome.value.injEq] at admitted'
    subst admitted'
    exact ⟨session, _, hs, stands.session, rfl, others⟩
  | entered admitted' branch =>
    cases program
    rw [admitted, Outcome.value.injEq] at admitted'
    subst admitted'
    have entered := enterBlock_stands (s := createElement b c _) stands
    refine ⟨session, _, hs, entered.session, rfl, fun d hd => ?_⟩
    rw [builder?_enterBlock_other _ hd]
    exact others d hd
  | _ => cases program

end Calls

/-! ### Isolation -/

/-- Isolation of builders. A program that makes no tag call on a builder and runs no build of it
leaves its record as it is: session, root, counters and remarks. When fragments that leave
alone what the builder's code uses are put anywhere into that code, the builder builds the
same, up to matched objects, if both builds come to an end; the second one does if its
fragments do. A call is logged by its own builder only, at the number of that builder's
blocks that run. -/
theorem builders_isolated :
    (∀ (code : Code) (p : Program Value) (b : BuilderRef) (s : State) (n : Nat),
      code.Steady → p.Steady → (Object.builder b).In s.world →
      p.Abides (.except b) (callWithin code n) (abidesWithin (.except b) code n) s →
      (p.run (callWithin code n) s).2.world.builder? b = s.world.builder? b) ∧
    (∀ (names : String → Prop) (known apart : Object → Prop) (zero : known (.identity 0))
      (disjoint : ∀ o, known o → ¬ apart o) (aside : Program Value → Prop) (code code' : Code)
      (b : BuilderRef) (k : Callable Value) (s : State) (n more : Nat),
      known (.builder b) →
      State.Like names (.same known apart zero disjoint) s s →
      Callable.Like (.same known apart zero disjoint) k k →
      Code.Alike names (fun _ => False) (.same known apart zero disjoint) code code →
      (∀ c args named, Interspersed aside (code c args named) (code' c args named)) →
      (∀ f, aside f → KeepsOff names (.same known apart zero disjoint) code' f) →
      (build (callWithin code n) b (.callable k) s).1 ≠ .exhausted →
      ((build (callWithin code' (n + more)) b (.callable k) s).1 ≠ .exhausted ∨
        ∀ f, aside f → Ends names (.same known apart zero disjoint) code' more f) →
      Undisturbed names (.same known apart zero disjoint) b
        (build (callWithin code n) b (.callable k) s)
        (build (callWithin code' (n + more)) b (.callable k) s)) ∧
    ∀ (code : Code) (m m' : Machine) (b : BuilderRef) (name : Value) (args : List Value)
      (named : List (String × Value)) (next : Except Fault ElementRef → Program Value)
      (c : TagCall), Reachable code m → m.program = .tag b name args named next →
      m.state.world.admitCall b name args named = .value c → Move code m m' →
      ∃ session session', m.state.world.session? b = some session ∧
        m'.state.world.session? b = some session' ∧
        session'.log = session.log ++
          [((running b m.stack).length, (m.state.world.create b c).1)] ∧
        ∀ d, d ≠ b → m'.state.world.builder? d = m.state.world.builder? d := by
  refine ⟨?_, ?_, ?_⟩
  · intro code p b s n steady hp hb abides
    exact builder_unchanged steady hp hb abides
  · intro names known apart zero disjoint aside code code' b k s n more hb closed block same
      inserted off hx hy
    have stays : (Matching.same known apart zero disjoint).Builders b b := ⟨hb, rfl⟩
    exact build_undisturbed stays same inserted off closed block hx hy
  · intro code m m' b name args named next c hm program admitted move
    exact call_logged hm program admitted move

/-! ### Work on the side -/

def sideBlock : Callable Value := .chain 1 "x" [] (.text "y")

/-- A fragment that builds with a new builder, and then fails. -/
def sideWork : Program Value := do
  let b ← Program.inWorld (newBuilder .none .none)
  let _ ← Program.runBuild b (.callable sideBlock)
  Program.fail .emptyTag

/-- Code of tags, with work on the side in some blocks. -/
def sideCode : Code := fun c args named =>
  match c with
  | .chain 0 _ _ _ => sideWork.observe >>= fun _ => tagCode c args named
  | c => tagCode c args named

theorem sideWork_steady : sideWork.Steady :=
  Program.steady_bind (Program.steady_inWorld (respects_newBuilder _ _)) fun b =>
    Program.steady_bind (Program.steady_runBuild b _) fun _ => Program.steady_fail _

theorem after_trivial {α : Type} {ran : Outcome α × State}
    {goesOn : Except Fault α → State → Prop} (h : ∀ r, goesOn r ran.2) : After ran goesOn := by
  obtain ⟨x, t⟩ := ran
  cases x with
  | value a => exact h _
  | fault f => exact h _
  | exhausted => trivial

theorem sideCode_steady : sideCode.Steady := by
  intro c args named
  unfold sideCode
  split
  · exact Program.steady_bind (Program.steady_observe sideWork_steady) fun _ =>
      tagCode_steady _ _ _
  · exact tagCode_steady _ _ _

theorem eq_of_admitBuild {w : World} {b : BuilderRef} {k c : Callable Value}
    (h : w.admitBuild b (.callable k) = .value c) : c = k := by
  unfold World.admitBuild at h
  split at h
  · cases h
  · split at h
    · cases h
    · cases h
      rfl

/-- Work on the side is permitted where new builders are. -/
theorem sideWork_abides {P : Permit} (code : Code)
    (side : ∀ h : Handle, code sideBlock [.handle h] [] = tagCode sideBlock [.handle h] [])
    {s : State} (acts : P.acts s (World.inState (newBuilder .none .none) s).2)
    (calls : P.calls ⟨s.world.builders.size⟩) (n : Nat) :
    sideWork.Abides P (callWithin code n) (abidesWithin P code n) s := by
  refine ⟨acts, calls, fun c hc => ?_, after_trivial fun r => ?_⟩
  · obtain rfl := eq_of_admitBuild hc
    cases n with
    | zero => trivial
    | succ n =>
      show (code sideBlock _ _).Abides P _ _ _
      rw [handleFor, side]
      refine ⟨calls, fun c block hc hblock => ?_, after_trivial fun r => ?_⟩
      · obtain ⟨x, s, resolved, shape, limit, tag, -, -, -, hshape, -, -, -, rfl⟩ :=
          admitCall_eq_value hc
        cases hshape
        cases hblock
      · cases r <;> trivial
  · cases r <;> trivial

theorem sideWork_keepsOff (names : String → Prop) (base : Matching) :
    KeepsOff names base sideCode sideWork := by
  intro ρ s t n _ hs
  refine sideWork_abides sideCode (fun _ => rfl) ?_ ?_ n
  · have named := World.Spares.newId (P := ρ.Right) t.world
    exact .of_world (named.trans (.pushBuilder _ (fun b hb => named.grows _ (hs.held _ hb)) _))
  · intro reserved
    exact Nat.lt_irrefl _ (hs.held _ reserved)

theorem sideCode_interspersed (c : Callable Value) (args : List Value)
    (named : List (String × Value)) :
    Interspersed (Eq sideWork) (tagCode c args named) (sideCode c args named) := by
  unfold sideCode
  split
  · exact .fragment sideWork rfl (.refl _)
  · exact .refl _

/-- The builder of the pristine state, its handle, and what is not shared. -/
def familiar (o : Object) : Prop := o = .identity 0 ∨ o = .identity 1 ∨ o = .builder ⟨0⟩

theorem pristine_closed : State.Like (fun _ => False)
    (.same familiar (fun _ => False) (.inl rfl) fun _ _ h => h) pristine pristine where
  world :=
    { objects := by
        rintro o p ⟨rfl | rfl | rfl, rfl⟩
        · exact .identity (by decide) (by decide)
        · exact .identity (by decide) (by decide)
        · refine .builder rfl rfl ?_
          have plain (a : Atom) (h : ∀ i, a ≠ .nan i) : Value.Like
              (.same familiar (fun _ => False) (.inl rfl) fun _ _ h => h) (.atom a) (.atom a) :=
            .atom (Atom.Like.refl h)
          exact
            { configuration := .settings fun n => by cases n <;> exact plain _ (by simp)
              correlation := plain _ (by simp)
              handleId := ⟨.inr (.inl rfl), rfl⟩
              session := .none
              root := .none
              remarks := rfl
              counters := rfl }
      apart := False.elim
      size := Nat.le_refl _
      host := rfl }
  binding _ := False.elim
  builder _ := False.elim

/-- Code of tags; one chain runs a build of the second builder, whose block is a tag's function
of the first. -/
def crossing : Code := fun c args named =>
  match c with
  | .chain 7 _ _ _ => .build ⟨1⟩ (.callable (.factory 0 ⟨0⟩ "a")) ignoring
  | c => tagCode c args named

/-- The state inside of a build. -/
def begun : State := pristine.onWorld (·.startBuild ⟨0⟩)

def pair : State := pristine.onWorld fun w => (newBuilder .none .none w).2

theorem pair_fresh : pair.Fresh := by
  rintro ⟨i⟩
  match i with
  | 0 => exact ⟨rfl, rfl⟩
  | 1 => exact ⟨rfl, rfl⟩
  | i + 2 => exact ⟨rfl, rfl⟩

theorem small_isolation :
    (sideWork.run (callWithin sideCode 2) begun).2.world.builder? ⟨0⟩ =
      begun.world.builder? ⟨0⟩ ∧
    Undisturbed (fun _ => False) (.same familiar (fun _ => False) (.inl rfl) fun _ _ h => h) ⟨0⟩
      (build (callWithin tagCode 3) ⟨0⟩ (.callable smallBlock) pristine)
      (build (callWithin sideCode (3 + 1)) ⟨0⟩ (.callable smallBlock) pristine) ∧
    ∃ m m' session session', Reachable crossing m ∧ Move crossing m m' ∧
      (∃ next stack, m.stack = .build ⟨1⟩ next :: stack) ∧
      m.state.world.session? ⟨0⟩ = some session ∧ m'.state.world.session? ⟨0⟩ = some session' ∧
      session'.log = session.log ++ [(0, ⟨0⟩)] ∧
      m'.state.world.builder? ⟨1⟩ = m.state.world.builder? ⟨1⟩ := by
  refine ⟨?_, ?_, ?_⟩
  · have other : (⟨1⟩ : BuilderRef) ≠ ⟨0⟩ := by decide
    exact builders_isolated.1 sideCode sideWork ⟨0⟩ begun 2 sideCode_steady sideWork_steady
      Nat.one_pos (sideWork_abides sideCode (fun _ => rfl) trivial other 2)
  · refine builders_isolated.2.1 (fun _ => False) familiar (fun _ => False) (.inl rfl)
      (fun _ _ h => h) (Eq sideWork) tagCode sideCode ⟨0⟩ smallBlock pristine 3 1
      (.inr (.inr rfl)) pristine_closed (.chain ⟨.inl rfl, rfl⟩ (.atom (Atom.Like.refl (by simp))))
      (tagCode_alike _ _ _) sideCode_interspersed ?_ ?_ (.inl ?_)
    · rintro f rfl
      exact sideWork_keepsOff _ _
    · have plain : (build (callWithin tagCode 3) ⟨0⟩ (.callable smallBlock) pristine).1.value? =
          some ⟨0⟩ := by decide +kernel
      intro h
      rw [h] at plain
      cases plain
    · have busy : (build (callWithin sideCode (3 + 1)) ⟨0⟩ (.callable smallBlock) pristine).1.value?
          = some ⟨1⟩ := by decide +kernel
      intro h
      rw [h] at busy
      cases busy
  · have h0 : Reachable crossing _ :=
      .initial pair_fresh (.build ⟨0⟩ (.callable (.chain 7 "" [] .none)) ignoring)
    have h1 := h0.move (.began (c := .chain 7 "" [] .none) rfl)
    have h2 := h1.move (.began (c := .factory 0 ⟨0⟩ "a") rfl)
    obtain ⟨session, session', hs, hs', hlog, others⟩ :=
      builders_isolated.2.2 crossing _ _ ⟨0⟩ _ _ _ _ _ h2 rfl rfl (.created rfl rfl)
    exact ⟨_, _, session, session', h2, .created rfl rfl, ⟨_, _, rfl⟩, hs, hs', hlog,
      others ⟨1⟩ (by decide)⟩

end TagTree
