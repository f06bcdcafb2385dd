import TagTree.Proofs.Operations
import TagTree.Proofs.Scripts

/-!
# Programs side by side

Programs that do like things to like objects, each going on alike after like answers, end
alike when they run from alike states. In between the second one may run fragments that keep
off all matched objects.
-/

namespace TagTree

/-! ### States -/

/-- States that are alike for code that uses some names of variables and builders. -/
structure State.Like (names : String → Prop) (ρ : Matching) (s t : State) : Prop where
  world : World.Like ρ s.world t.world
  binding : ∀ n, names n → Option.Rel (Value.Like ρ)
    (Table.find? (· == ·) n s.bindings) (Table.find? (· == ·) n t.bindings)
  builder : ∀ n, names n → Option.Rel ρ.Builders
    (Table.find? (· == ·) n s.builders) (Table.find? (· == ·) n t.builders)

/-- What a fragment must keep off: matched objects and names that are used. -/
def Matching.reserve (ρ : Matching) (names : String → Prop) : Reserve := ⟨ρ.Right, names⟩

section States

variable {names : String → Prop} {lost : Prop} {ρ σ : Matching} {s t t' : State}

theorem State.Like.onWorld (h : State.Like names ρ s t) (le : ρ ≤ σ) {w w' : World}
    (hw : World.Like σ w w') :
    State.Like names σ { s with world := w } { t with world := w' } where
  world := hw
  binding n hn := rel_imp (fun _ _ hv => hv.mono le) (h.binding n hn)
  builder n hn := rel_imp (fun _ _ => Matching.rel_of_le le) (h.builder n hn)

/-- Builders of two states have counted and remarked the same. -/
def SameAccounts (b c : BuilderRef) (s t : State) : Prop :=
  ∃ x y, s.world.builder? b = some x ∧ t.world.builder? c = some y ∧
    x.counters = y.counters ∧ x.remarks = y.remarks

theorem SameAccounts.of_like (h : State.Like names ρ s t) {b c : BuilderRef}
    (hb : ρ.Builders b c) : SameAccounts b c s t := by
  obtain ⟨x, y, hx, hy, same⟩ := h.world.builder hb
  exact ⟨x, y, hx, hy, same.counters, same.remarks⟩

theorem size_le_of_grows {P : Object → Prop} {w v : World} (h : w.Spares P v) :
    w.store.elements.size ≤ v.store.elements.size := by
  rcases Nat.eq_zero_or_pos w.store.elements.size with hz | hp
  · omega
  · have hlast : (Object.element ⟨w.store.elements.size - 1⟩).In w := Nat.sub_lt hp Nat.one_pos
    have hin : w.store.elements.size - 1 < v.store.elements.size := h.grows _ hlast
    omega

/-- What happens to other objects of the second state does not matter. -/
theorem State.Like.spared (h : State.Like names ρ s t) (spared : t.Spares (ρ.reserve names) t') :
    State.Like names ρ s t' where
  world :=
    h.world.spared (.refl _) spared.world (h.world.size.trans (size_le_of_grows spared.world))
  binding n hn := by
    rw [spared.binding n hn]
    exact h.binding n hn
  builder n hn := by
    rw [spared.builder n hn]
    exact h.builder n hn

theorem State.Like.held (h : State.Like names ρ s t) : (ρ.reserve names).Held t :=
  h.world.right_held

theorem EndsAlike.onState {α β : Type} {R : Matching → α → β → Prop} {x : Outcome α × World}
    {y : Outcome β × World} (h : State.Like names ρ s t)
    (hxy : EndsAlike World.Like lost R ρ x y) :
    EndsAlike (State.Like names) lost R ρ (x.1, { s with world := x.2 })
      (y.1, { t with world := y.2 }) := by
  cases hxy with
  | spent => exact .spent
  | lost hl => exact .lost hl
  | value le state same => exact .value le (h.onWorld le state) same
  | fault le state same => exact .fault le (h.onWorld le state) same

end States

/-! ### Tag calls and builds -/

/-- Calls of like callables end alike in alike states, from some matching on. -/
def CallersAlike (names : String → Prop) (lost : Prop) (base : Matching) (caller caller' : Caller) :
    Prop :=
  ∀ ρ c c' args args' named named' s t, base ≤ ρ → Callable.Like ρ c c' →
    Values.Like ρ args args' → Named.Like ρ named named' → State.Like names ρ s t →
    EndsAlike (State.Like names) lost Value.Like ρ (caller c args named s)
      (caller' c' args' named' t)

section Deeds

variable {names : String → Prop} {lost : Prop} {base ρ : Matching} {caller caller' : Caller}
  {s t : State} {b c : BuilderRef}

theorem handle_like (h : State.Like names ρ s t) (hb : ρ.Builders b c) :
    Value.Like ρ (.handle (s.world.handle b)) (.handle (t.world.handle c)) := by
  obtain ⟨x, y, hx, hy, same⟩ := h.world.builder hb
  simp only [World.handle, hx, hy, Option.map_some, Option.getD_some]
  exact .handle ⟨same.handleId, hb⟩

theorem enterBlock_alike (h : State.Like names ρ s t) (hb : ρ.Builders b c) :
    State.Like names ρ (enterBlock b s) (enterBlock c t) :=
  h.onWorld le_rfl (h.world.updateBuilder hb fun _ _ hxy => hxy.enterBlock)

theorem leaveBlock_alike (h : State.Like names ρ s t) (hb : ρ.Builders b c) :
    State.Like names ρ (leaveBlock b s) (leaveBlock c t) :=
  h.onWorld le_rfl (h.world.updateBuilder hb fun _ _ hxy => hxy.leaveBlock)

theorem endBlock_alike (hb : ρ.Builders b c) {e f : ElementRef} (he : ρ.Elements e f)
    (start : Nat) {x y : Outcome Value × State}
    (h : EndsAlike (State.Like names) lost Value.Like ρ x y) :
    EndsAlike (State.Like names) lost Matching.Elements ρ (endBlock b e start x.1 x.2)
      (endBlock c f start y.1 y.2) := by
  cases h with
  | spent => exact .spent
  | lost hl => exact .lost hl
  | fault le state same =>
    exact .fault le (leaveBlock_alike state (Matching.rel_of_le le hb)) same
  | value le state same =>
    have settled : EndsAlike World.Like lost (fun _ _ _ => True) _ (World.settle _ b e start _)
        (World.settle _ c f start _) :=
      state.world.settle (Matching.rel_of_le le hb) (Matching.rel_of_le le he) start same
    simp only [endBlock]
    generalize World.settle _ b e start _ = r, World.settle _ c f start _ = r' at settled
    cases settled with
    | spent => exact .spent
    | lost hl => exact .lost hl
    | fault le' state' same =>
      exact .fault (le.trans le')
        (leaveBlock_alike (state.onWorld le' state') (Matching.rel_of_le (le.trans le') hb)) same
    | value le' state' _ =>
      exact .value (le.trans le')
        (leaveBlock_alike (state.onWorld le' state') (Matching.rel_of_le (le.trans le') hb))
        (Matching.rel_of_le (le.trans le') he)

theorem tagCall_alike (calls : CallersAlike names lost base caller caller') (le : base ≤ ρ)
    (h : State.Like names ρ s t) (hb : ρ.Builders b c) {name name' : Value}
    (hn : Value.Like ρ name name') {args args' : List Value} (ha : Values.Like ρ args args')
    {named named' : List (String × Value)} (hnamed : Named.Like ρ named named') :
    EndsAlike (State.Like names) lost Matching.Elements ρ (tagCall caller b name args named s)
      (tagCall caller' c name' args' named' t) := by
  have admitted := h.world.admitCall hb hn ha hnamed
  unfold tagCall
  generalize s.world.admitCall b name args named = x,
    t.world.admitCall c name' args' named' = y at admitted
  cases admitted with
  | spent => exact .spent
  | fault same => exact .fault le_rfl h same
  | @value k l hk =>
    obtain ⟨σ, le', he, hw⟩ := h.world.create hb hk
    have hb' := Matching.rel_of_le le' hb
    have created := h.onWorld le' hw
    have block := hk.block
    simp only
    generalize k.block = o, l.block = o' at block
    cases block with
    | none => exact .value le' created he
    | some hblock =>
      have inside := enterBlock_alike created hb'
      have ran := calls σ _ _ _ _ _ _ _ _ (le.trans le') (hblock.mono le')
        (.cons (handle_like inside hb') .nil) .nil inside
      refine EndsAlike.weaken le' ?_
      simp only [runNested, created.world.logLength hb']
      exact endBlock_alike hb' he _ ran

theorem endBuild_alike (hb : ρ.Builders b c) {x y : Outcome Value × State}
    (h : EndsAlike (State.Like names) lost Value.Like ρ x y) :
    EndsAlike (State.Like names) lost Matching.Elements ρ (endBuild b x.1 x.2)
      (endBuild c y.1 y.2) := by
  cases h with
  | spent => exact .spent
  | lost hl => exact .lost hl
  | fault le state same =>
    have hb' := Matching.rel_of_le le hb
    exact .fault le (state.onWorld le_rfl (state.world.failBuild hb' _ _)) same
  | value le state same =>
    exact EndsAlike.weaken le
      (.onState state (state.world.concludeBuild (Matching.rel_of_le le hb)))

theorem build_alike (calls : CallersAlike names lost base caller caller') (le : base ≤ ρ)
    (h : State.Like names ρ s t) (hb : ρ.Builders b c) {block block' : Value}
    (hv : Value.Like ρ block block') :
    EndsAlike (State.Like names) lost Matching.Elements ρ (build caller b block s)
      (build caller' c block' t) := by
  have admitted := h.world.admitBuild hb hv
  unfold build
  generalize s.world.admitBuild b block = x, t.world.admitBuild c block' = y at admitted
  cases admitted with
  | spent => exact .spent
  | fault same => exact .fault le_rfl h same
  | value hk =>
    have started := h.onWorld le_rfl (h.world.startBuild hb)
    exact endBuild_alike hb (calls ρ _ _ _ _ _ _ _ _ le hk
      (.cons (handle_like started hb) .nil) .nil started)

theorem attachContent_alike (h : State.Like names ρ s t) {e f : ElementRef}
    (he : ρ.Elements e f) {change change' : Element → Except Fault Element}
    (hc : ChangesAlike ρ change change') :
    EndsAlike (State.Like names) lost (fun _ _ _ => True) ρ (Program.attachContent e change s)
      (Program.attachContent f change' t) := .onState h (h.world.changeElement he hc)

end Deeds

/-! ### Programs -/

/-- A reply with a related value or a like fault. -/
abbrev Reply.Alike {α β : Type} (R : Matching → α → β → Prop) (ρ : Matching) :
    Except Fault α → Except Fault β → Prop := Reply.Like (Fault.Like ρ) (R ρ)

/-- Programs that do like things and go on alike, whatever more is matched until then. The
second one may in between run fragments of some kind, whose endings it does not heed. -/
inductive Program.Alike (names : String → Prop) (aside : Program Value → Prop) {α β : Type}
    (R : Matching → α → β → Prop) : Matching → Program α → Program β → Prop
  | spent {ρ q} : Alike names aside R ρ (.done .exhausted) q
  | value {ρ a b} (same : ∀ σ, ρ ≤ σ → R σ a b) :
      Alike names aside R ρ (.done (.value a)) (.done (.value b))
  | fault {ρ f g} (same : ∀ σ, ρ ≤ σ → Fault.Like σ f g) :
      Alike names aside R ρ (.done (.fault f)) (.done (.fault g))
  | act {ρ γ δ} {p : Proc State γ} {q : Proc State δ} {next next'}
      (S : Matching → γ → δ → Prop)
      (deed : ∀ σ s t, ρ ≤ σ → State.Like names σ s t →
        EndsAlike (State.Like names) False S σ (p s) (q t))
      (rest : ∀ σ r r', ρ ≤ σ → Reply.Alike S σ r r' →
        Alike names aside R σ (next r) (next' r')) :
      Alike names aside R ρ (.act p next) (.act q next')
  | attach {ρ e f change change' next next'} (element : ρ.Elements e f)
      (changes : ∀ σ, ρ ≤ σ → ChangesAlike σ change change')
      (rest : ∀ σ r r', ρ ≤ σ → Reply.Alike (fun _ _ _ => True) σ r r' →
        Alike names aside R σ (next r) (next' r')) :
      Alike names aside R ρ (.attach e change next) (.attach f change' next')
  | tag {ρ b c name name' args args' named named' next next'} (builder : ρ.Builders b c)
      (called : Value.Like ρ name name') (given : Values.Like ρ args args')
      (givenNamed : Named.Like ρ named named')
      (rest : ∀ σ r r', ρ ≤ σ → Reply.Alike Matching.Elements σ r r' →
        Alike names aside R σ (next r) (next' r')) :
      Alike names aside R ρ (.tag b name args named next) (.tag c name' args' named' next')
  | build {ρ b c block block' next next'} (builder : ρ.Builders b c)
      (given : Value.Like ρ block block')
      (rest : ∀ σ r r', ρ ≤ σ → Reply.Alike Matching.Elements σ r r' →
        Alike names aside R σ (next r) (next' r')) :
      Alike names aside R ρ (.build b block next) (.build c block' next')
  | apply {ρ k l args args' named named' next next'} (callable : Callable.Like ρ k l)
      (given : Values.Like ρ args args') (givenNamed : Named.Like ρ named named')
      (rest : ∀ σ r r', ρ ≤ σ → Reply.Alike Value.Like σ r r' →
        Alike names aside R σ (next r) (next' r')) :
      Alike names aside R ρ (.apply k args named next) (.apply l args' named' next')
  | insert {ρ p q} (fragment : Program Value) (kind : aside fragment)
      (rest : Alike names aside R ρ p q) :
      Alike names aside R ρ p (fragment.observe >>= fun _ => q)

/-- Callables that are alike, from some matching on, have programs that are alike. -/
def Code.Alike (names : String → Prop) (aside : Program Value → Prop) (base : Matching)
    (code code' : Code) : Prop :=
  ∀ ρ c c' args args' named named', base ≤ ρ → Callable.Like ρ c c' → Values.Like ρ args args' →
    Named.Like ρ named named' →
    Program.Alike names aside Value.Like ρ (code c args named) (code' c' args' named')

/-! ### Building programs -/

section Building

variable {names : String → Prop} {aside : Program Value → Prop} {α β γ δ : Type} {ρ : Matching}
  {R : Matching → α → β → Prop} {S : Matching → γ → δ → Prop}

theorem Program.bind_assoc (p : Program α) (k : α → Program β) (l : β → Program γ) :
    p >>= k >>= l = p >>= fun a => k a >>= l := by
  show (p.bind k).bind l = p.bind fun a => (k a).bind l
  induction p with
  | done x => cases x <;> rfl
  | act d next ih => exact congrArg (act d) (funext ih)
  | attach e change next ih => exact congrArg (attach e change) (funext ih)
  | tag b name args named next ih => exact congrArg (tag b name args named) (funext ih)
  | build b block next ih => exact congrArg (build b block) (funext ih)
  | apply c args named next ih => exact congrArg (apply c args named) (funext ih)

theorem Program.Alike.bind {p : Program α} {q : Program β} {k : α → Program γ}
    {l : β → Program δ} (h : Program.Alike names aside R ρ p q)
    (hk : ∀ σ a b, ρ ≤ σ → R σ a b → Program.Alike names aside S σ (k a) (l b)) :
    Program.Alike names aside S ρ (p >>= k) (q >>= l) := by
  show Program.Alike names aside S ρ (p.bind k) (q.bind l)
  induction h with
  | spent => exact .spent
  | value same => exact hk _ _ _ le_rfl (same _ le_rfl)
  | fault same => exact .fault same
  | act T deed rest ih =>
    exact .act T deed fun σ r r' le hr => ih σ r r' le hr fun τ a b le' => hk τ a b (le.trans le')
  | attach element changes rest ih =>
    exact .attach element changes fun σ r r' le hr =>
      ih σ r r' le hr fun τ a b le' => hk τ a b (le.trans le')
  | tag builder called given givenNamed rest ih =>
    exact .tag builder called given givenNamed fun σ r r' le hr =>
      ih σ r r' le hr fun τ a b le' => hk τ a b (le.trans le')
  | build builder given rest ih =>
    exact .build builder given fun σ r r' le hr =>
      ih σ r r' le hr fun τ a b le' => hk τ a b (le.trans le')
  | apply callable given givenNamed rest ih =>
    exact .apply callable given givenNamed fun σ r r' le hr =>
      ih σ r r' le hr fun τ a b le' => hk τ a b (le.trans le')
  | @insert _ p q fragment kind rest ih =>
    rw [show (fragment.observe >>= fun _ => q).bind l = fragment.observe >>= fun _ => q >>= l from
      Program.bind_assoc _ _ _]
    exact .insert fragment kind (ih hk)

theorem Program.Alike.pure {a : α} {b : β} (same : ∀ σ, ρ ≤ σ → R σ a b) :
    Program.Alike names aside R ρ (Pure.pure a) (Pure.pure b) := .value same

theorem Program.Alike.fail {f g : Fault} (same : Fault.Like ρ f g) :
    Program.Alike names aside R ρ (Program.fail f) (Program.fail g) :=
  .fault fun _ le => same.mono le

theorem Program.Alike.answer (mono : ∀ {σ τ a b}, σ ≤ τ → R σ a b → R τ a b)
    {r : Except Fault α} {r' : Except Fault β} (h : Reply.Alike R ρ r r') :
    Program.Alike names aside R ρ (Program.answer r) (Program.answer r') := by
  cases h with
  | ok same => exact .value fun _ le => mono le same
  | error same => exact .fault fun _ le => same.mono le

theorem Program.Alike.call {b c : BuilderRef} (builder : ρ.Builders b c) {name name' : Value}
    (called : Value.Like ρ name name') {args args' : List Value} (given : Values.Like ρ args args')
    {named named' : List (String × Value)} (givenNamed : Named.Like ρ named named') :
    Program.Alike names aside Matching.Elements ρ (Program.call b name args named)
      (Program.call c name' args' named') :=
  .tag builder called given givenNamed fun _ _ _ _ hr =>
    .answer (R := Matching.Elements) (fun le he => Matching.rel_of_le le he) hr

end Building

/-! ### Running programs -/

section Running

variable {names : String → Prop} {lost : Prop} {base ρ : Matching} {caller caller' : Caller}
  {aside : Program Value → Prop} {α β γ δ : Type} {R : Matching → α → β → Prop}
  {S : Matching → γ → δ → Prop}

/-- Deeds that end alike, and then programs that end alike after like answers. -/
theorem EndsAlike.observe {d : Proc State γ} {d' : Proc State δ}
    {next : Except Fault γ → Program α} {next' : Except Fault δ → Program β} {s t : State}
    (h : EndsAlike (State.Like names) lost S ρ (d s) (d' t))
    (rest : ∀ σ r r' s t, ρ ≤ σ → Reply.Alike S σ r r' → State.Like names σ s t →
      EndsAlike (State.Like names) lost R σ ((next r).run caller s) ((next' r').run caller' t)) :
    EndsAlike (State.Like names) lost R ρ
      ((Proc.observe d >>= fun r => (next r).run caller) s)
      ((Proc.observe d' >>= fun r => (next' r).run caller') t) := by
  rw [Proc.bind_apply, Proc.bind_apply]
  unfold Proc.observe
  generalize d s = x, d' t = y at h
  cases h with
  | spent => exact .spent
  | lost hl => exact .lost hl
  | value le state same => exact EndsAlike.weaken le (rest _ _ _ _ _ le (.ok same) state)
  | fault le state same => exact EndsAlike.weaken le (rest _ _ _ _ _ le (.error same) state)

theorem EndsAlike.unlost {L : Matching → State → State → Prop} {x : Outcome γ × State}
    {y : Outcome δ × State} (h : EndsAlike L False S ρ x y) : EndsAlike L lost S ρ x y := by
  cases h with
  | spent => exact .spent
  | lost hl => exact hl.elim
  | value le state same => exact .value le state same
  | fault le state same => exact .fault le state same

/-- Fragments leave alone what is matched, and run out of fuel only where that is allowed. -/
def FragmentsSpare (names : String → Prop) (lost : Prop) (base : Matching)
    (aside : Program Value → Prop) (caller' : Caller) : Prop :=
  ∀ fragment ρ s t, aside fragment → base ≤ ρ → State.Like names ρ s t →
    ((fragment.run caller' t).1 = .exhausted → lost) ∧
      State.Like names ρ s (fragment.run caller' t).2

theorem Program.Alike.run (calls : CallersAlike names lost base caller caller')
    (fragments : FragmentsSpare names lost base aside caller') {p : Program α} {q : Program β}
    (h : Program.Alike names aside R ρ p q) {σ : Matching} (hbase : base ≤ σ) (le : ρ ≤ σ)
    {s t : State} (hs : State.Like names σ s t) :
    EndsAlike (State.Like names) lost R σ (p.run caller s) (q.run caller' t) := by
  -- on how the programs are alike, not on one of them: the second may be ahead by fragments
  induction h generalizing σ s t with
  | spent => exact .spent
  | value same => exact .value le_rfl hs (same σ le)
  | fault same => exact .fault le_rfl hs (same σ le)
  | act S deed rest ih =>
    exact (EndsAlike.unlost (deed σ s t le hs)).observe fun τ r r' s t le' hr hs =>
      ih τ r r' (le.trans le') hr (hbase.trans le') le_rfl hs
  | attach element changes rest ih =>
    exact (attachContent_alike hs (Matching.rel_of_le le element) (changes σ le)).observe
      fun τ r r' s t le' hr hs => ih τ r r' (le.trans le') hr (hbase.trans le') le_rfl hs
  | tag builder called given givenNamed rest ih =>
    exact (tagCall_alike calls hbase hs (Matching.rel_of_le le builder) (called.mono le)
      (given.mono le) (Named.Like.mono le givenNamed)).observe
      fun τ r r' s t le' hr hs => ih τ r r' (le.trans le') hr (hbase.trans le') le_rfl hs
  | build builder given rest ih =>
    exact (build_alike calls hbase hs (Matching.rel_of_le le builder) (given.mono le)).observe
      fun τ r r' s t le' hr hs => ih τ r r' (le.trans le') hr (hbase.trans le') le_rfl hs
  | apply callable given givenNamed rest ih =>
    exact (calls σ _ _ _ _ _ _ s t hbase (callable.mono le) (given.mono le)
      (Named.Like.mono le givenNamed) hs).observe
      fun τ r r' s t le' hr hs => ih τ r r' (le.trans le') hr (hbase.trans le') le_rfl hs
  | insert fragment kind rest ih =>
    obtain ⟨hl, spared⟩ := fragments fragment σ s t kind hbase hs
    rw [Program.run_bind, Program.run_observe, Proc.bind_apply]
    unfold Proc.observe
    rcases hrun : fragment.run caller' t with ⟨x, t'⟩
    rw [hrun] at spared
    cases x with
    | value a => exact ih hbase le spared
    | fault f => exact ih hbase le spared
    | exhausted => exact .lost (hl (by rw [hrun]))

/-- Calls by like code end alike if the second code has some more fuel, for its fragments. -/
theorem callWithin_alike {code code' : Code} (alike : Code.Alike names aside base code code')
    (more : Nat)
    (fragments : ∀ n, FragmentsSpare names lost base aside (callWithin code' (n + more)))
    (n : Nat) :
    CallersAlike names lost base (callWithin code n) (callWithin code' (n + more)) := by
  induction n with
  | zero => exact fun _ _ _ _ _ _ _ _ _ _ _ _ _ _ => .spent
  | succ n ih =>
    intro ρ c c' args args' named named' s t hbase hc ha hn hs
    rw [Nat.succ_add]
    exact (alike ρ c c' args args' named named' hbase hc ha hn).run ih (fragments n) hbase
      le_rfl hs

end Running

/-! ### Code of tags -/

/-- The code of chains, which call their tags on the handle that they are given, and of tags'
functions. -/
def tagCode : Code := fun c args named =>
  match c, args with
  | .chain id tag inner leaf, [.handle h] => do
    let block := match inner with
      | [] => leaf
      | tag :: inner => .callable (.chain id tag inner leaf)
    let e ← Program.call h.builder (.text tag) [block] []
    pure (.element e)
  | .factory _ b tag, args => do
    let e ← Program.call b (.text tag) args named
    pure (.element e)
  | _, args => Program.fail (.argumentCount "block" 1 args.length)

theorem tagCode_alike (names : String → Prop) (aside : Program Value → Prop) (base : Matching) :
    Code.Alike names aside base tagCode tagCode := by
  intro ρ c c' args args' named named' _ hc ha hn
  have refused : Program.Alike names aside Value.Like ρ
      (Program.fail (.argumentCount "block" 1 args.length))
      (Program.fail (.argumentCount "block" 1 args'.length)) := by
    rw [ha.length_eq]
    exact .fail (.plain trivial)
  have element (σ : Matching) (e f : ElementRef) (he : σ.Elements e f) :
      Program.Alike names aside Value.Like σ (pure (.element e)) (pure (.element f)) :=
    .pure fun _ le => .element (Matching.rel_of_le le he)
  have text (tag : String) : Value.Like ρ (.text tag) (.text tag) :=
    .atom (Atom.Like.refl (by simp))
  cases hc with
  | factory id builder =>
    exact (Program.Alike.call builder (text _) ha hn).bind fun σ e f _ he => element σ e f he
  | @chain i j tag inner x y id leaf =>
    cases ha with
    | nil => exact refused
    | cons first rest =>
      cases first with
      | handle same =>
        cases rest with
        | cons => exact refused
        | nil =>
          have block : Value.Like ρ
              (match inner with
                | [] => x
                | tag :: inner => .callable (.chain i tag inner x))
              (match inner with
                | [] => y
                | tag :: inner => .callable (.chain j tag inner y)) := by
            cases inner with
            | nil => exact leaf
            | cons tag inner => exact .chain id leaf
          exact (Program.Alike.call same.builder (text _) (.cons block .nil) .nil).bind
            fun σ e f _ he => element σ e f he
      | _ => cases rest <;> exact refused
  | _ => exact refused

theorem tagCode_steady : tagCode.Steady := by
  intro c args named
  unfold tagCode
  split
  · exact Program.steady_bind (Program.steady_call _ _ _ _) fun e => Program.steady_pure _
  · exact Program.steady_bind (Program.steady_call _ _ _ _) fun e => Program.steady_pure _
  · exact Program.steady_fail _

/-- A state with a builder that built nothing yet. -/
def pristine : State := (State.initial .small).onWorld fun w => (newBuilder .none .none w).2

end TagTree
