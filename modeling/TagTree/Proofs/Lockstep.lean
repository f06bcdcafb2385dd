import Mathlib.Data.List.Forall2
import TagTree.Proofs.Blind

/-!
# Runs in lockstep

Two runs of blind code from bonded states go through bonded states step by step, as long as tag
calls are admitted alike in both and the bond is fair to the blocks that end.
-/

namespace TagTree

variable {V : Veil} {B : Bond V} {code : Code}

/-! ### Machines -/

/-- Frames of one kind, about the same builder and element, whose programs go on the same. -/
inductive Frame.Veiled (V : Veil) : Frame → Frame → Prop
  | plain {next next'} (rest : ∀ r, (next r).Veiled V Eq (next' r)) :
      Veiled V (.plain next) (.plain next')
  | block {b e start next next'} (rest : ∀ r, (next r).Veiled V Eq (next' r)) :
      Veiled V (.block b e start next) (.block b e start next')
  | build {b next next'} (rest : ∀ r, (next r).Veiled V Eq (next' r)) :
      Veiled V (.build b next) (.build b next')

/-- Machines that are at the same point of two runs. -/
structure Machine.Paired (B : Bond V) (m n : Machine) : Prop where
  state : m.state.Bonded B n.state
  stack : List.Forall₂ (Frame.Veiled V) m.stack n.stack
  program : m.program.Veiled V Eq n.program
  history : n.history = m.history

/-- A machine whose next step may be made in the other run too: its tag call is admitted alike,
and its block is settled fairly. -/
structure Machine.Fair (B : Bond V) (m : Machine) : Prop where
  calls : ∀ {b name args named next}, m.program = .tag b name args named next →
    ∀ t : State, m.state.Bonded B t →
      t.world.admitCall b name args named = m.state.world.admitCall b name args named
  blocks : ∀ {e start next rest v}, m.stack = .block V.builder e start next :: rest →
    m.program = .done (.value v) → B.Fair (m.state.world.settle V.builder e start v).1

theorem openBlocks_congr {stack stack' : List Frame}
    (h : List.Forall₂ (Frame.Veiled V) stack stack') : openBlocks stack' = openBlocks stack := by
  induction h with
  | nil => rfl
  | cons first _ ih => cases first <;> simp only [openBlocks, ih]

theorem running_congr {stack stack' : List Frame}
    (h : List.Forall₂ (Frame.Veiled V) stack stack') (b : BuilderRef) :
    running b stack' = running b stack := by
  rw [running, running, openBlocks_congr h]

/-! ### Steps -/

/-- Every step of the first run from a fair machine is a step of the second one. -/
theorem lockstep (blind : code.Blind V) {m m' n : Machine} (h : m.Paired B n) (fair : m.Fair B)
    (hs : Machine.Step code m m') : ∃ n', Machine.Step code n n' ∧ m'.Paired B n' := by
  obtain ⟨t, stack', q, h'⟩ := n
  obtain ⟨⟨move, -⟩, going⟩ := hs
  obtain ⟨state, stack, program, history⟩ := h
  simp only at state stack program history
  subst history
  have admitted {b : BuilderRef} {name : Value} {args : List Value}
      {named : List (String × Value)} {next : Except Fault ElementRef → Program Value}
      (hp : m.program = .tag b name args named next) :=
    fair.calls hp t state
  cases move with
  | @returned s next rest x =>
    cases program with
    | done same =>
      cases stack with
      | cons first rest =>
        cases first with
        | plain more =>
          rw [same.eq]
          exact ⟨_, .of_ending .returned, state, rest, .resume_eq more x, rfl⟩
  | @left s b e start next rest x =>
    cases program with
    | done same =>
      cases stack with
      | cons first rest =>
        cases first with
        | block more =>
          have ended := state.endBlock (c := b) e start x fun hb v hx => by
            subst hb hx
            exact fair.blocks rfl rfl
          rw [same.eq]
          refine ⟨_, .of_ending .left, ended.2, rest, ?_, rfl⟩
          rw [ended.1]
          exact .resume_eq more _
  | @ended s b next rest x =>
    cases program with
    | done same =>
      cases stack with
      | cons first rest =>
        cases first with
        | build more =>
          have ended := state.endBuild b x
          rw [same.eq]
          refine ⟨_, .of_ending .ended, ended.2, rest, ?_, ?_⟩
          · rw [ended.1]
            exact .resume_eq more _
          · rw [ended.1]
  | acted kept =>
    cases program with
    | act deed rest =>
      exact ⟨_, .acted (deed.right t), deed.bonded state, stack,
        .resume rest (deed.ending state.veiled), rfl⟩
  | @attached s stack₀ e change next =>
    cases program with
    | attach rest =>
      have attached := state.attachContent e change
      refine ⟨_, .of_deed .attached rfl rfl, attached.2, stack, ?_, rfl⟩
      rw [attached.1]
      exact .resume_eq rest _
  | refusedCall refused =>
    cases program with
    | tag rest =>
      exact ⟨_, .of_deed (.refusedCall ((admitted rfl).trans refused)) rfl rfl, state, stack,
        rest _, rfl⟩
  | unreadCall unread =>
    cases program with
    | tag rest =>
      exact ⟨_, .of_deed (.unreadCall ((admitted rfl).trans unread)) rfl rfl, state, stack,
        .done .exhausted, rfl⟩
  | @created s stack₀ b name args named next h c admission leaf =>
    cases program with
    | tag rest =>
      refine ⟨_, .of_deed (.created ((admitted rfl).trans admission) leaf) rfl rfl,
        state.createElement b c, stack, ?_, ?_⟩
      · simp only [(state.world.create b c).1]
        exact rest _
      · simp only [(state.world.create b c).1, running_congr stack]
  | @entered s stack₀ b name args named next h c block admission branch =>
    cases program with
    | tag rest =>
      have created := State.Bonded.createElement state b c
      have entered := created.enterBlock b
      refine ⟨_, .of_deed (.entered ((admitted rfl).trans admission) branch) rfl rfl,
        entered, ?_, ?_, ?_⟩
      · simp only [(state.world.create b c).1, created.logLength]
        exact .cons (.block rest) stack
      · simp only [entered.handleFor]
        exact blind _ _ _
      · simp only [(state.world.create b c).1, running_congr stack]
  | refusedBuild refused =>
    cases program with
    | build rest =>
      have refused' := (state.world.veiled.admitBuild _ _).trans refused
      exact ⟨_, .of_deed (.refusedBuild refused') rfl rfl, state, stack, rest _, rfl⟩
  | unreadBuild unread =>
    cases program with
    | build rest =>
      exact ⟨_, .of_deed (.unreadBuild ((state.world.veiled.admitBuild _ _).trans unread)) rfl rfl,
        state, stack, .done .exhausted, rfl⟩
  | @began s stack₀ b block next h c admission =>
    cases program with
    | build rest =>
      have started := State.Bonded.startBuild state b
      refine ⟨_, .of_deed (.began ((state.world.veiled.admitBuild _ _).trans admission)) rfl rfl,
        started, .cons (.build rest) stack, ?_, rfl⟩
      simp only [started.handleFor]
      exact blind _ _ _
  | applied =>
    cases program with
    | apply rest =>
      exact ⟨_, .of_deed .applied rfl rfl, state, .cons (.plain rest) stack, blind _ _ _, rfl⟩
  | loaded => exact absurd ⟨rfl, _, rfl⟩ going

/-! ### Runs -/

/-- Steps from machines of which something holds. -/
abbrev Machine.StepsWhile (code : Code) (P : Machine → Prop) : Machine → Machine → Prop :=
  Relation.ReflTransGen fun m m' => P m ∧ Machine.Step code m m'

theorem lockstep_steps (blind : code.Blind V) {m m' n : Machine} (h : m.Paired B n)
    (hs : Machine.StepsWhile code (Machine.Fair B) m m') :
    ∃ n', Machine.Steps code n n' ∧ m'.Paired B n' := by
  induction hs with
  | refl => exact ⟨n, .refl, h⟩
  | tail _ step ih =>
    obtain ⟨n', hn, paired⟩ := ih
    obtain ⟨n'', hs, paired⟩ := lockstep blind paired step.1 step.2
    exact ⟨n'', hn.tail hs, paired⟩

/-- A machine from which all that follows is fair. -/
def Machine.Fairly (code : Code) (B : Bond V) (m : Machine) : Prop :=
  ∀ m', Machine.Steps code m m' → m'.Fair B

namespace Machine.Fairly

variable {m m' : Machine}

theorem fair (h : m.Fairly code B) : m.Fair B := h m .refl

theorem steps (h : m.Fairly code B) (hs : Machine.Steps code m m') : m'.Fairly code B :=
  fun m'' hm => h m'' (hs.trans hm)

theorem step (h : m.Fairly code B) (hs : Machine.Step code m m') : m'.Fairly code B :=
  h.steps (.single hs)

end Machine.Fairly

/-! ### Runs with fuel -/

/-- Computations that end the same in bonded states, in bonded states again. -/
structure EndsBonded (B : Bond V) {α : Type} (r r' : Outcome α × State) : Prop where
  ending : r'.1 = r.1
  state : r.2.Bonded B r'.2

/-- Programs that run alike on bonded states while the first one runs fairly. -/
def RunsBonded (code : Code) (B : Bond V) (caller : Caller) (p q : Program Value) : Prop :=
  ∀ s t stack h, s.Bonded B t → Machine.Fairly code B ⟨s, stack, p, h⟩ →
    EndsBonded B (p.run caller s) (q.run caller t)

def CallsBonded (code : Code) (B : Bond V) (caller : Caller) : Prop :=
  ∀ c args named s t stack h, s.Bonded B t →
    Machine.Fairly code B ⟨s, stack, code c args named, h⟩ →
    EndsBonded B (caller c args named s) (caller c args named t)

section Fuel

variable {caller : Caller} {s t : State} {stack : List Frame} {h : List Event}

theorem run_deed {α β : Type} (d : Proc State β) (next : Except Fault β → Program α) (s : State) :
    (Proc.observe d >>= fun r => (next r).run caller) s =
      (Program.resume next (d s).1).run caller (d s).2 := by
  rw [Proc.bind_apply]
  unfold Proc.observe
  rcases d s with ⟨y, t⟩
  cases y <;> rfl

/-- What follows deeds with matching endings. -/
theorem ends_bonded_of_deed {β γ : Type} {R : β → γ → Prop} {d : Proc State β} {d' : Proc State γ}
    {next : Except Fault β → Program Value} {next' : Except Fault γ → Program Value}
    (ending : Outcome.Matches R (d s).1 (d' t).1) (state : (d s).2.Bonded B (d' t).2)
    (fairly : (d s).1 ≠ .exhausted →
      ∃ stack h, Machine.Fairly code B ⟨(d s).2, stack, .resume next (d s).1, h⟩)
    (rest : ∀ r r', Reply.Matches R r r' → RunsBonded code B caller (next r) (next' r')) :
    EndsBonded B ((Proc.observe d >>= fun r => (next r).run caller) s)
      ((Proc.observe d' >>= fun r => (next' r).run caller) t) := by
  rw [run_deed, run_deed]
  generalize (d s).1 = x, (d' t).1 = y at ending fairly ⊢
  cases ending with
  | value same =>
    obtain ⟨stack, h, hf⟩ := fairly (by simp)
    exact rest _ _ (.ok same) _ _ stack h state hf
  | fault f =>
    obtain ⟨stack, h, hf⟩ := fairly (by simp)
    exact rest _ _ (.error rfl) _ _ stack h state hf
  | exhausted => exact ⟨rfl, state⟩

theorem ends_bonded_of_same {β : Type} {d : Proc State β}
    {next next' : Except Fault β → Program Value} (deed : EndsBonded B (d s) (d t))
    (fairly : (d s).1 ≠ .exhausted →
      ∃ stack h, Machine.Fairly code B ⟨(d s).2, stack, .resume next (d s).1, h⟩)
    (rest : ∀ r, RunsBonded code B caller (next r) (next' r)) :
    EndsBonded B ((Proc.observe d >>= fun r => (next r).run caller) s)
      ((Proc.observe d >>= fun r => (next' r).run caller) t) := by
  have ending : Outcome.Matches Eq (d s).1 (d t).1 := by
    rw [deed.ending]
    exact .refl _
  refine ends_bonded_of_deed ending deed.state fairly fun r r' hr => ?_
  cases hr with
  | ok same =>
    subst same
    exact rest _
  | error same =>
    subst same
    exact rest _

theorem runNested_bonded (calls : CallsBonded code B caller) (adequate : Adequate code caller)
    {b : BuilderRef} {e : ElementRef} {block : Callable Value}
    {next : Except Fault ElementRef → Program Value} (hs : s.Bonded B t)
    (fairly : Machine.Fairly code B ⟨enterBlock b s,
      .block b e (s.world.logLength b) next :: stack,
      code block [handleFor b (enterBlock b s)] [], h⟩) :
    EndsBonded B (runNested caller b e block s) (runNested caller b e block t) := by
  have entered := hs.enterBlock b
  obtain ⟨ending, state⟩ := calls _ _ _ _ _ _ h entered fairly
  unfold runNested
  simp only
  rw [hs.logLength, show (enterBlock b t).world.handle b = (enterBlock b s).world.handle b from
    entered.world.veiled.handle b]
  simp only [handleFor] at ending state fairly
  generalize hx : caller block [.handle ((enterBlock b s).world.handle b)] [] (enterBlock b s) =
    x at ending state ⊢
  obtain ⟨x, after⟩ := x
  have ended := state.endBlock (c := b) e (s.world.logLength b) x fun hb v hv => by
    subst hb hv
    obtain ⟨events, hm⟩ := adequate _ _ _ _ _ _ hx (by simp)
      (.block V.builder e (s.world.logLength V.builder) next :: stack) h
    exact (fairly _ hm).blocks rfl rfl
  rw [ending]
  exact ⟨ended.1, ended.2⟩

theorem tagCall_bonded (calls : CallsBonded code B caller) (adequate : Adequate code caller)
    {b : BuilderRef} {name : Value} {args : List Value} {named : List (String × Value)}
    {next : Except Fault ElementRef → Program Value} (hs : s.Bonded B t)
    (fairly : Machine.Fairly code B ⟨s, stack, .tag b name args named next, h⟩) :
    EndsBonded B (tagCall caller b name args named s) (tagCall caller b name args named t) := by
  have admitted := fairly.fair.calls rfl t hs
  unfold tagCall
  rw [admitted]
  cases admission : s.world.admitCall b name args named with
  | fault f => exact ⟨rfl, hs⟩
  | exhausted => exact ⟨rfl, hs⟩
  | value c =>
    have created := hs.createElement b c
    have ref := (hs.world.create b c).1
    simp only
    cases branch : c.block with
    | none => exact ⟨congrArg Outcome.value ref, created⟩
    | some block =>
      simp only [ref]
      exact runNested_bonded calls adequate created
        (fairly.step (.of_deed (.entered admission branch) rfl rfl))

/-- A build that is admitted in both runs, and begins in bonded states. -/
theorem build_bonded_of_started (calls : CallsBonded code B caller) {b : BuilderRef}
    {block : Value} {c : Callable Value} {next : Except Fault ElementRef → Program Value}
    (admission : s.world.admitBuild b block = .value c)
    (admission' : t.world.admitBuild b block = .value c)
    (started : (s.onWorld (·.startBuild b)).Bonded B (t.onWorld (·.startBuild b)))
    (fairly : Machine.Fairly code B ⟨s, stack, .build b block next, h⟩) :
    EndsBonded B (build caller b block s) (build caller b block t) := by
  have handle : (t.onWorld (·.startBuild b)).world.handle b =
      (s.onWorld (·.startBuild b)).world.handle b := started.world.veiled.handle b
  obtain ⟨ending, state⟩ := calls _ _ _ _ _ _ _ started
    (fairly.step (.of_deed (.began admission) rfl rfl))
  have ended := state.endBuild b (caller c [handleFor b (s.onWorld (·.startBuild b))] []
    (s.onWorld (·.startBuild b))).1
  simp only [handleFor] at ending ended
  simp only [build, admission, admission', handle, ending]
  exact ⟨ended.1, ended.2⟩

theorem build_bonded (calls : CallsBonded code B caller) {b : BuilderRef} {block : Value}
    {next : Except Fault ElementRef → Program Value} (hs : s.Bonded B t)
    (fairly : Machine.Fairly code B ⟨s, stack, .build b block next, h⟩) :
    EndsBonded B (build caller b block s) (build caller b block t) := by
  have same := hs.world.veiled.admitBuild b block
  cases admission : s.world.admitBuild b block with
  | value c =>
    exact build_bonded_of_started calls admission (same.trans admission) (hs.startBuild b) fairly
  | fault f =>
    simp only [build, same, admission]
    exact ⟨rfl, hs⟩
  | exhausted =>
    simp only [build, same, admission]
    exact ⟨rfl, hs⟩

theorem runsBonded_of_calls (calls : CallsBonded code B caller) (adequate : Adequate code caller)
    {p q : Program Value} (hp : p.Veiled V Eq q) : RunsBonded code B caller p q := by
  induction hp with
  | done same =>
    intro s t stack h hs _
    rw [same.eq]
    exact ⟨rfl, hs⟩
  | act deed rest ih =>
    intro s t stack h hs fairly
    refine ends_bonded_of_deed (deed.ending hs.veiled) (deed.bonded hs) (fun _ => ?_) ih
    exact ⟨stack, h, fairly.step (.acted (deed.left s))⟩
  | @attach e change _ _ rest ih =>
    intro s t stack h hs fairly
    have attached := hs.attachContent e change
    refine ends_bonded_of_same ⟨attached.1, attached.2⟩ (fun _ => ?_) ih
    exact ⟨stack, _, fairly.step (.of_deed .attached rfl rfl)⟩
  | tag rest ih =>
    intro s t stack h hs fairly
    refine ends_bonded_of_same (tagCall_bonded calls adequate hs fairly) (fun hx => ?_) ih
    obtain ⟨events, hm⟩ := runs_tag adequate rfl hx stack h
    exact ⟨stack, _, fairly.steps hm⟩
  | build rest ih =>
    intro s t stack h hs fairly
    refine ends_bonded_of_same (build_bonded calls hs fairly) (fun hx => ?_) ih
    obtain ⟨events, hm⟩ := runs_build adequate rfl hx stack h
    exact ⟨stack, _, fairly.steps hm⟩
  | @apply c args named next _ rest ih =>
    intro s t stack h hs fairly
    have applied := fairly.step (.of_deed .applied rfl rfl)
    refine ends_bonded_of_same (calls _ _ _ _ _ _ _ hs applied) (fun hx => ?_) ih
    obtain ⟨events, hm⟩ := adequate _ _ _ _ _ _ rfl hx (.plain next :: stack) h
    exact ⟨stack, _, applied.steps (hm.tail (.of_ending .returned))⟩

/-- Code that is blind to what differs runs alike with any amount of fuel. -/
theorem callsBonded_callWithin (blind : code.Blind V) (steady : code.Steady) (n : Nat) :
    CallsBonded code B (callWithin code n) := by
  induction n with
  | zero => exact fun _ _ _ s t stack h hs _ => ⟨rfl, hs⟩
  | succ n ih =>
    intro c args named s t stack h hs fairly
    exact runsBonded_of_calls ih (adequate_callWithin steady n) (blind c args named) s t stack h
      hs fairly

end Fuel

end TagTree
