import TagTree.Proofs.Keeping

/-!
# Scripts on the machine

Scripts are steady code. What a script runs to, unless it uses up its fuel, is a state that the
machine leads to.
-/

namespace TagTree

open Proc

/-! ### Steady programs -/

def State.Leaves (s s' : State) : Prop := s.world.Leaves s'.world

instance : IsPreorder State State.Leaves where
  refl s := .refl s.world
  trans _ _ _ h h' := World.Leaves.trans h h'

theorem respects_inState {α : Type} {p : Proc World α} (h : p.Respects World.Leaves) :
    (World.inState p).Respects State.Leaves := fun s => h s.world

theorem respects_beside {f : State → State} (h : ∀ s, (f s).world = s.world) :
    (Proc.modify f).Respects State.Leaves := fun s => by
  show s.world.Leaves (f s).world
  rw [h s]
  exact .refl s.world

namespace Program

section Steady

variable {α β : Type}

@[simp] theorem steady_pure (a : α) : (pure a : Program α).Steady := trivial

@[simp] theorem steady_fail (f : Fault) : (fail f : Program α).Steady := trivial

@[simp] theorem steady_answer (r : Except Fault α) : (answer r).Steady := by
  cases r <;> exact trivial

@[simp] theorem steady_bind {p : Program α} {k : α → Program β} (hp : p.Steady)
    (hk : ∀ a, (k a).Steady) : (p >>= k).Steady := by
  show (p.bind k).Steady
  induction p with
  | done x =>
    cases x with
    | value a => exact hk a
    | fault f => trivial
    | exhausted => trivial
  | act p next ih => exact ⟨hp.1, fun r => ih r (hp.2 r)⟩
  | attach e change next ih => exact fun r => ih r (hp r)
  | tag b name args named next ih => exact fun r => ih r (hp r)
  | build b block next ih => exact fun r => ih r (hp r)
  | apply c args named next ih => exact fun r => ih r (hp r)

@[simp] theorem steady_observe {p : Program α} (hp : p.Steady) : p.observe.Steady := by
  induction p with
  | done x => cases x <;> trivial
  | act p next ih => exact ⟨hp.1, fun r => ih r (hp.2 r)⟩
  | attach e change next ih => exact fun r => ih r (hp r)
  | tag b name args named next ih => exact fun r => ih r (hp r)
  | build b block next ih => exact fun r => ih r (hp r)
  | apply c args named next ih => exact fun r => ih r (hp r)

@[simp] theorem steady_inState {p : Proc State α} (h : p.Respects State.Leaves) :
    (inState p).Steady := ⟨h, steady_answer⟩

@[simp] theorem steady_inWorld {p : Proc World α} (h : p.Respects World.Leaves) :
    (inWorld p).Steady := steady_inState (respects_inState h)

@[simp] theorem steady_liftState {p : Proc State α} (h : p.Respects State.Leaves) :
    (liftM p : Program α).Steady := steady_inState h

@[simp] theorem steady_liftWorld {p : Proc World α} (h : p.Respects World.Leaves) :
    (liftM p : Program α).Steady := steady_inWorld h

@[simp] theorem steady_attachTo (e : ElementRef) (change : Element → Except Fault Element) :
    (attachTo e change).Steady := steady_answer

@[simp] theorem steady_call (b : BuilderRef) (name : Value) (args : List Value)
    (named : List (String × Value)) : (call b name args named).Steady := steady_answer

@[simp] theorem steady_runBuild (b : BuilderRef) (block : Value) :
    (runBuild b block).Steady := steady_answer

@[simp] theorem steady_invoke (c : Callable Value) (args : List Value)
    (named : List (String × Value)) : (invoke c args named).Steady := steady_answer

@[simp] theorem steady_callByName (h : Handle) (name : String) (args : List Value)
    (named : List (String × Value)) : (callByName h name args named).Steady := by
  refine steady_bind (steady_liftState respects_get) fun s => ?_
  split <;> simp

end Steady

end Program

/-! ### Actions -/

open Program

section Actions

theorem respects_objects {f : World → World} (hs : ∀ w : World, w.store.Grows (f w).store)
    (hb : ∀ w, (f w).builders = w.builders) : (Proc.modify f).Respects World.Leaves := fun w =>
  .of_store (hb w) (hs w)

theorem respects_journal {f : World → World} (hs : ∀ w, (f w).store = w.store)
    (hb : ∀ w, (f w).builders = w.builders) : (Proc.modify f).Respects World.Leaves :=
  respects_objects (fun w => by rw [hs w]; exact refl_of Store.Grows w.store) hb

theorem Logger.steady_keysOf (l : Logger) (h : Handle) : (l.keysOf h).Steady := by
  unfold Logger.keysOf
  refine steady_bind (steady_liftWorld respects_get) fun before => ?_
  have rest : (do
      let _ ← callByName h "keys" [] []
      if l.coversBuilders then
        Program.inWorld (Proc.modify fun w => { w with journal := before.journal })
      (Program.fail : Fault → Program Dict)
        (.notIterableResult "TagHandle.keys" "XMLElement")).Steady := by
    refine steady_bind (steady_callByName _ _ _ _) fun _ => ?_
    simp only
    split
    · refine steady_bind (steady_inWorld (respects_journal ?_ ?_)) fun _ => steady_fail _
      · exact fun _ => rfl
      · exact fun _ => rfl
    · exact steady_fail _
  cases before.lookupTag h.builder "keys" with
  | error f => exact steady_bind (steady_fail _) fun _ => rest
  | ok name => exact rest

theorem Logger.steady_particulars (l : Logger) (extra : Value) :
    (l.particulars extra).Steady := by
  unfold Logger.particulars
  split
  · exact l.steady_keysOf _
  · refine steady_inWorld fun w => ?_
    unfold Logger.entriesOf
    split <;> exact .refl w

theorem Logger.steady_record (l : Logger) (c : LogCall Value) : (l.record c).Steady := by
  unfold Logger.record
  simp only
  split
  · exact steady_fail _
  · refine steady_bind (l.steady_particulars _) fun extra => ?_
    split <;> simp

theorem Logger.steady_call (l : Logger) (c : LogCall Value) : (l.call c).Steady := by
  refine steady_bind (steady_observe (l.steady_record c)) fun r => ?_
  cases r <;> simp

theorem Logger.steady_callAll (l : Logger) (cs : List (LogCall Value)) :
    (l.callAll cs).Steady := by
  induction cs with
  | nil => exact steady_pure _
  | cons c rest ih =>
    refine steady_bind (l.steady_call c) fun report => ?_
    exact steady_bind ih fun reports => steady_pure _

theorem World.steady_targetOf (v : Value) : (World.targetOf v).Steady := by
  unfold World.targetOf
  split
  · exact steady_pure _
  · exact steady_pure _
  · exact steady_bind (steady_callByName _ _ _ _) fun _ => steady_pure _
  · exact steady_fail _

@[simp] theorem Action.respects_answering (f : World → Except Fault Result) :
    (Action.answering f).Respects World.Leaves := fun w => by
  unfold Action.answering
  cases f w <;> exact .refl w

@[simp] theorem Action.respects_making {p : Proc Store Value} (h : p.Respects Store.Grows) :
    (Action.making p).Respects World.Leaves :=
  respects_bind (respects_inStore h) fun _ => respects_gets _

@[simp] theorem Action.respects_listOf (items : List Value) :
    (Action.listOf items).Respects World.Leaves :=
  respects_inStore (by simp)

@[simp] theorem World.respects_settingsResult (s : Settings Value) :
    (World.settingsResult s).Respects World.Leaves := by
  refine respects_bind respects_get fun w => ?_
  refine respects_bind (respects_ofExcept _) fun table => ?_
  exact respects_bind (respects_inStore Store.respects_newId) fun id => respects_pure _

@[simp] theorem Settings.respects_ofJson (text : Value) :
    (Settings.ofJson text).Respects World.Leaves := by
  refine respects_bind (respects_ofExcept _) fun j => ?_
  split
  · refine respects_bind (respects_inStore (Json.respects_storeEntries _)) fun entries => ?_
    exact respects_bind respects_get fun w => respects_ofExcept _
  · exact respects_fail _

theorem respects_takeJournal (levels : Option (List Level)) :
    (takeJournal levels).Respects World.Leaves := fun w =>
  .of_store rfl (refl_of Store.Grows w.store)

@[simp] theorem Export.respects_convert (t : Target) (correlation : Value) (installed : Bool)
    (v : Value) : (Export.convert t correlation installed v).Respects World.Leaves := fun w => by
  unfold Export.convert
  split
  · split
    · exact .refl w
    · split
      · exact .of_store rfl (refl_of Store.Grows _)
      · split
        · exact .of_store rfl (refl_of Store.Grows _)
        · exact .refl w
      · exact .refl w
  · exact .refl w

@[simp] theorem Export.respects_strictly (t : Target) (installed : Bool) (v : Value) :
    (Export.strictly t installed v).Respects World.Leaves := by
  refine respects_bind (Export.respects_convert t .none installed v) fun r => ?_
  split
  · exact respects_ofOutcome _
  · exact respects_fail _

@[simp] theorem respects_asked (v : Value) (name : String) :
    (World.asked v name).Respects World.Leaves := respects_reads _

@[simp] theorem respects_checked {α β : Type} {x : Except Fault α} {k : α → Proc World β}
    (h : ∀ a, (k a).Respects World.Leaves) : (Proc.ofExcept x >>= k).Respects World.Leaves :=
  respects_bind (respects_ofExcept x) h

@[simp] theorem respects_reading {β : Type} {k : World → Proc World β}
    (h : ∀ w, (k w).Respects World.Leaves) : (Proc.get >>= k).Respects World.Leaves :=
  respects_bind respects_get h

theorem Action.respects_putEntry (container v k : Value) :
    (match container with
      | .dict d => do
        let entries ← Proc.gets fun w => w.store.entries d
        let table ← Proc.ofExcept (Store.putKey entries k v)
        Proc.modify fun w => { w with store := w.store.setDict d table }
        Proc.gets fun w => Result.ofValue w (.dict d)
      | .list l => do
        let items ← Proc.gets fun w => w.store.items l
        let changed ← Proc.ofExcept (Store.putItem items k v)
        Proc.modify fun w => { w with store := w.store.setList l changed }
        Proc.gets fun w => Result.ofValue w (.list l)
      | other => Proc.fail (.notAssignable other.typeName) :
        Proc World Result).Respects World.Leaves := by
  split
  · refine respects_bind (respects_gets _) fun entries => respects_checked fun table => ?_
    refine respects_bind (respects_objects ?_ ?_) fun _ => respects_gets _
    · exact fun w => w.store.grows_setDict _ _
    · exact fun _ => rfl
  · refine respects_bind (respects_gets _) fun items => respects_checked fun changed => ?_
    refine respects_bind (respects_objects ?_ ?_) fun _ => respects_gets _
    · exact fun w => w.store.grows_setList _ _
    · exact fun _ => rfl
  · exact respects_fail _

/-- Actions keep builders and elements, but for content attached by hand. -/
theorem Action.steady_perform (env : Surroundings) (a : Action Value) :
    (a.perform env).Steady := by
  cases a with
  | putEntry container v k => exact steady_inWorld (Action.respects_putEntry container v k)
  | handle name =>
    cases name with
    | none => exact steady_inWorld (respects_gets _)
    | some name =>
      refine steady_inWorld (respects_checked fun b => ?_)
      exact respects_bind (respects_inStore Store.respects_newId) fun id => respects_gets _
  | lookup h name =>
    refine steady_inWorld (respects_checked fun v => respects_reading fun w => ?_)
    refine respects_bind (respects_inStore ?_) fun found => respects_checked fun text => ?_
    · exact Surroundings.respects_lookup w v name
    · exact respects_pure _
  | element tag attributes content =>
    refine steady_inWorld (Action.respects_making ?_)
    exact respects_bind (Store.respects_makeElement _ _ _) fun e => respects_pure _
  | attachText v text =>
    refine steady_bind (steady_inWorld (respects_asked _ _)) fun e => ?_
    exact steady_bind (steady_attachTo _ _) fun _ => steady_inWorld (respects_gets _)
  | attachChildren v children =>
    refine steady_bind (steady_inWorld (respects_asked _ _)) fun e => ?_
    refine steady_bind (steady_inWorld (respects_gets _)) fun store => ?_
    refine steady_bind (steady_attachTo _ _) fun _ => ?_
    refine steady_bind (steady_inWorld (respects_inStore Store.respects_newId)) fun _ => ?_
    exact steady_inWorld (respects_gets _)
  | property v p =>
    cases v with
    | handle h =>
      refine steady_inWorld (respects_reading fun w => Action.respects_making ?_)
      exact Surroundings.respects_lookup w (.handle h) p.name
    | _ =>
      refine steady_inWorld (respects_reading fun w => respects_checked fun x => ?_)
      exact Action.respects_making (Element.respects_property x.2 p)
  | renderElement v depth width =>
    cases v with
    | builder b =>
      refine steady_inWorld ?_
      split
      · exact respects_bind (respects_reads _) fun text => respects_pure _
      · exact respects_fail _
      · exact respects_fail _
    | _ =>
      refine steady_inWorld (respects_reading fun w => respects_checked fun x => ?_)
      refine respects_checked fun _ => ?_
      exact respects_bind (respects_ofOutcome _) fun text => respects_pure _
  | toTable v =>
    cases v with
    | settings id s =>
      refine steady_inWorld (respects_reading fun w => respects_checked fun fields => ?_)
      exact respects_bind (respects_inStore (Plain.keep_respects Store.grows_making fields))
        fun v => respects_pure _
    | _ =>
      refine steady_inWorld (respects_reading fun w => respects_checked fun x => ?_)
      refine respects_bind (respects_ofOutcome _) fun t => ?_
      exact Action.respects_making (Plain.respects_store _)
  | find v tag =>
    refine steady_inWorld (respects_reading fun w => ?_)
    split
    · exact respects_checked fun n => respects_pure _
    · refine respects_checked fun x => ?_
      exact respects_bind (respects_ofOutcome _) fun t => respects_pure _
  | findAll v tag =>
    refine steady_inWorld (respects_reading fun w => respects_checked fun x => ?_)
    refine respects_bind (respects_ofOutcome _) fun t => ?_
    exact respects_bind (Action.respects_listOf _) fun found => respects_gets _
  | nodes v =>
    refine steady_inWorld (respects_reading fun w => respects_checked fun x => ?_)
    refine respects_bind (respects_ofOutcome _) fun t => ?_
    exact respects_bind (Action.respects_listOf _) fun found => respects_pure _
  | journal levels =>
    exact steady_inWorld (respects_bind (respects_takeJournal levels) fun r => respects_pure _)
  | logger name correlation component calls =>
    refine steady_bind (steady_inWorld (respects_gets _)) fun l => ?_
    exact steady_bind (l.steady_callAll calls) fun r => steady_inWorld (respects_gets _)
  | convert target v correlation installed =>
    refine steady_bind (World.steady_targetOf target) fun t => ?_
    cases t with
    | none => exact steady_fail _
    | some t =>
      exact steady_inWorld (respects_bind (Export.respects_convert _ _ _ _) fun r =>
        respects_pure _)
  | exportTree v =>
    exact steady_inWorld (respects_bind (Export.respects_strictly _ _ v) fun m =>
      respects_pure _)
  | exportStrict v installed =>
    exact steady_inWorld (respects_bind (Export.respects_strictly _ installed v) fun m =>
      respects_pure _)
  | adapter name correlation installed =>
    refine steady_bind (World.steady_targetOf name) fun t => ?_
    cases t with
    | none => exact steady_pure _
    | some t => exact steady_inWorld (respects_gets _)
  | adapters installed =>
    exact steady_inWorld (respects_bind (Action.respects_listOf _) fun found => respects_pure _)
  | assignSetting v name _ =>
    refine steady_inWorld ?_
    split
    · exact respects_fail _
    · exact respects_pure _
  | settingsOfJson text =>
    exact steady_inWorld (respects_bind (Settings.respects_ofJson text) fun s =>
      World.respects_settingsResult s)
  | settings | strictSettings | lenientSettings =>
    exact steady_inWorld (respects_checked fun s => World.respects_settingsResult s)
  | override base fields =>
    exact steady_inWorld (respects_reading fun w => respects_checked fun s =>
      respects_checked fun s => World.respects_settingsResult s)
  | settingsOfTable data =>
    exact steady_inWorld (respects_reading fun w => respects_checked fun s =>
      World.respects_settingsResult s)
  | keep | equal => exact steady_inWorld (respects_gets _)
  | display v => exact steady_inWorld (respects_reads _)
  | raise | fail =>
    exact steady_inWorld (respects_bind (respects_reads _) fun f => respects_fail f)
  | state | render | builderText =>
    exact steady_inWorld (respects_checked fun b => respects_reads _)
  | session name => exact steady_inWorld (respects_checked fun b => respects_gets _)
  | attributeOf | settingsJson | diagnostic | counters =>
    exact steady_inWorld (Action.respects_answering _)
  | package => exact steady_inWorld (respects_pure _)

theorem Question.steady_put (q : Question) : q.put.Steady := by
  refine steady_bind (steady_callByName _ _ _ _) fun e => steady_inWorld ?_
  cases q.use with
  | element => exact respects_gets _
  | members => exact respects_fail _
  | table =>
    refine respects_reading fun w => respects_bind (respects_ofOutcome _) fun t => ?_
    exact respects_bind (respects_inStore (Plain.respects_store _)) fun table =>
      respects_gets _

end Actions

/-! ### Arguments -/

section Arguments

theorem Expr.respects_run (current : Value) (x : Expr) :
    (x.run current).Respects State.Leaves := fun s =>
  respects_inState (respects_inStore (Expr.respects_eval ⟨s, current⟩ x)) s

theorem Expr.respects_runOption (current : Value) (x : Option Expr) :
    (Expr.runOption current x).Respects State.Leaves := by
  cases x with
  | none => exact respects_pure _
  | some x => exact x.respects_run current

variable {σ ε ν : Type} {R : σ → σ → Prop} [IsPreorder σ R] {f : ε → Proc σ ν}

theorem respects_evalArgument (hf : ∀ x, (f x).Respects R) (x : Option ε) :
    (evalArgument? f x).Respects R := by
  cases x with
  | none => exact respects_pure _
  | some x => exact respects_bind (hf x) fun v => respects_pure _

theorem respects_evalArguments (hf : ∀ x, (f x).Respects R) (xs : List ε) :
    (evalArguments f xs).Respects R := by
  induction xs with
  | nil => exact respects_pure _
  | cons x rest ih =>
    exact respects_bind (hf x) fun v => respects_bind ih fun vs => respects_pure _

theorem respects_evalNamed (hf : ∀ x, (f x).Respects R) (named : List (String × ε)) :
    (evalNamed f named).Respects R := by
  have each : (evalEach f named).Respects R := by
    induction named with
    | nil => exact respects_pure _
    | cons x rest ih =>
      exact respects_bind (hf x.2) fun v => respects_bind ih fun vs => respects_pure _
  exact respects_bind each fun vs => respects_pure _

theorem respects_evalLogCalls (hf : ∀ x, (f x).Respects R) (cs : List (LogCall ε)) :
    (evalLogCalls f cs).Respects R := by
  induction cs with
  | nil => exact respects_pure _
  | cons c rest ih =>
    refine respects_bind (respects_evalArgument hf c.extra) fun extra => ?_
    exact respects_bind ih fun cs => respects_pure _

theorem Action.respects_evalWith {ask : ν → String → Proc σ Unit}
    (hf : ∀ x, (f x).Respects R) (ha : ∀ v name, (ask v name).Respects R) (a : Action ε) :
    (a.evalWith f ask).Respects R := by
  cases a with
  | keep | display | property | nodes | toTable | settingsOfTable | settingsOfJson
  | exportTree | exportStrict =>
    exact respects_bind (hf _) fun v => respects_pure _
  | equal | assignSetting =>
    exact respects_bind (hf _) fun x => respects_bind (hf _) fun y => respects_pure _
  | putEntry =>
    exact respects_bind (hf _) fun c => respects_bind (hf _) fun v =>
      respects_bind (hf _) fun k => respects_pure _
  | fail => exact respects_bind (respects_evalArguments hf _) fun xs => respects_pure _
  | element =>
    exact respects_bind (hf _) fun t => respects_bind (respects_evalArgument hf _) fun a =>
      respects_bind (respects_evalArgument hf _) fun c => respects_pure _
  | attachText | attachChildren | find | findAll =>
    exact respects_bind (hf _) fun e => respects_bind (ha _ _) fun _ =>
      respects_bind (hf _) fun x => respects_pure _
  | attributeOf =>
    exact respects_bind (hf _) fun e => respects_bind (hf _) fun n =>
      respects_bind (respects_evalArgument hf _) fun d => respects_pure _
  | renderElement =>
    exact respects_bind (hf _) fun e => respects_bind (respects_evalArgument hf _) fun d =>
      respects_bind (respects_evalArgument hf _) fun w => respects_pure _
  | settings | counters =>
    exact respects_bind (respects_evalNamed hf _) fun fs => respects_pure _
  | override =>
    exact respects_bind (hf _) fun s => respects_bind (ha _ _) fun _ =>
      respects_bind (respects_evalNamed hf _) fun fs => respects_pure _
  | settingsJson =>
    exact respects_bind (hf _) fun s => respects_bind (ha _ _) fun _ =>
      respects_bind (respects_evalArgument hf _) fun i => respects_pure _
  | diagnostic =>
    exact respects_bind (hf _) fun m => respects_bind (hf _) fun c =>
      respects_bind (respects_evalArgument hf _) fun d =>
        respects_bind (respects_evalArgument hf _) fun r => respects_pure _
  | logger =>
    exact respects_bind (respects_evalArgument hf _) fun r =>
      respects_bind (respects_evalArgument hf _) fun c =>
        respects_bind (respects_evalLogCalls hf _) fun cs => respects_pure _
  | convert =>
    exact respects_bind (hf _) fun t => respects_bind (hf _) fun v =>
      respects_bind (respects_evalArgument hf _) fun r => respects_pure _
  | adapter =>
    exact respects_bind (hf _) fun n => respects_bind (respects_evalArgument hf _) fun r =>
      respects_pure _
  | _ => exact respects_pure _

end Arguments

/-! ### Steps -/

section Steps

theorem steady_run (current : Value) (x : Expr) :
    (liftM (x.run current) : Program Value).Steady := steady_liftState (x.respects_run current)

theorem steady_runOption (current : Value) (x : Option Expr) :
    (liftM (Expr.runOption current x) : Program Value).Steady :=
  steady_liftState (Expr.respects_runOption current x)

theorem Run.steady_answering {α : Type} (f : World → α) : (Run.answering f).Steady :=
  steady_inWorld (respects_gets f)

theorem Run.steady_reporting (b : BuilderRef) : (Run.reporting b).Steady :=
  steady_inWorld (respects_reads _)

theorem Run.steady_given (current : Value) (block : Expr) (settings correlation : Option Expr) :
    (Run.given current block settings correlation).Steady := by
  refine steady_bind (steady_run current block) fun block => ?_
  refine steady_bind (steady_runOption current settings) fun settings => ?_
  exact steady_bind (steady_runOption current correlation) fun correlation => steady_pure _

theorem Run.steady_construct (settings correlation block : Value) :
    (Run.construct settings correlation block).Steady := by
  refine steady_bind (steady_inWorld (respects_newBuilder _ _)) fun b => ?_
  simp only
  split
  · exact steady_bind (steady_runBuild _ _) fun _ => steady_pure b
  · exact steady_pure b

theorem Run.steady_buildFresh (settings correlation block : Value) :
    (Run.buildFresh settings correlation block).Steady := by
  refine steady_bind (steady_inWorld (respects_newBuilder _ _)) fun b => ?_
  exact steady_bind (steady_runBuild _ _) fun root => steady_pure _

theorem Run.steady_textFresh (settings correlation block : Value) :
    (Run.textFresh settings correlation block).Steady :=
  steady_bind (Run.steady_buildFresh settings correlation block) fun _ =>
    steady_inWorld (respects_reads _)

theorem Run.steady_applied (current function : Value) (args : List Expr)
    (named : List (String × Expr)) : (Run.applied current function args named).Steady := by
  refine steady_bind (steady_liftState ?_) fun args => ?_
  · exact respects_evalArguments (Expr.respects_run current) args
  refine steady_bind (steady_liftState ?_) fun named => ?_
  · exact respects_evalNamed (Expr.respects_run current) named
  split
  · exact steady_bind (steady_invoke _ _ _) fun v => Run.steady_answering _
  · exact steady_fail _

theorem Run.steady_exec (current : Value) (r : Run Expr) : (r.exec current).Steady := by
  cases r with
  | newBuilder name block settings correlation =>
    refine steady_bind (steady_runOption current block) fun block => ?_
    refine steady_bind (steady_runOption current settings) fun settings => ?_
    refine steady_bind (steady_runOption current correlation) fun correlation => ?_
    refine steady_bind (Run.steady_construct settings correlation block) fun b => ?_
    refine steady_bind (steady_inState (respects_beside fun _ => rfl)) fun _ => ?_
    exact steady_bind (Run.steady_reporting b) fun report => steady_pure _
  | build name block =>
    refine steady_bind (steady_inState (respects_reads _)) fun b => ?_
    refine steady_bind (steady_run current block) fun block => ?_
    refine steady_bind (steady_runBuild _ _) fun root => ?_
    refine steady_bind (Run.steady_reporting b) fun report => ?_
    exact steady_bind (Run.steady_answering _) fun shown => steady_pure _
  | buildTree block settings correlation =>
    refine steady_bind (Run.steady_given current block settings correlation) fun r => ?_
    refine steady_bind (Run.steady_buildFresh _ _ _) fun built => ?_
    refine steady_bind (steady_inWorld (respects_reads _)) fun text => ?_
    exact steady_bind (Run.steady_answering _) fun shown => steady_pure _
  | buildText block settings correlation =>
    refine steady_bind (Run.steady_given current block settings correlation) fun r => ?_
    exact steady_bind (Run.steady_textFresh _ _ _) fun text => steady_pure _
  | call h name args named =>
    refine steady_bind (steady_liftState respects_get) fun s => ?_
    refine steady_bind (steady_inState (respects_ofExcept _)) fun v => ?_
    refine steady_bind (steady_inWorld (respects_inStore ?_)) fun function => ?_
    · exact Surroundings.respects_lookup s.world v name
    · exact Run.steady_applied current function args named
  | invoke name args named =>
    refine steady_bind (steady_inState (respects_reads _)) fun function => ?_
    exact Run.steady_applied current function args named
  | sample which =>
    refine steady_bind (steady_liftState respects_get) fun before => ?_
    refine steady_bind (Run.steady_given .none which.blockOf none none) fun r => ?_
    refine steady_bind (Run.steady_textFresh _ _ _) fun text => ?_
    exact steady_bind (steady_inState (respects_beside fun _ => rfl)) fun _ => steady_pure _

theorem Action.steady_exec (current : Value) (a : Action Expr) : (a.exec current).Steady := by
  refine steady_bind (steady_liftState ?_) fun a => ?_
  · refine Action.respects_evalWith (Expr.respects_run current) (fun v name => ?_) a
    exact respects_bind respects_get fun s => respects_ofExcept _
  · split
    · exact Question.steady_put _
    · exact steady_bind (steady_liftState respects_get) fun s => a.steady_perform _

theorem respects_recordFault (operation : String) (shown : State → Option BuilderRef)
    (f : Fault) : (recordFault operation shown f).Respects State.Leaves := fun s => by
  unfold recordFault
  split <;> exact .refl s.world

theorem steady_recorded (operation : String) (keep : Option String)
    (shown : State → Option BuilderRef) {p : Program Result} (hp : p.Steady) :
    (recorded operation keep shown p).Steady := by
  refine steady_bind (steady_observe hp) fun r => ?_
  cases r with
  | ok r =>
    simp only
    split
    · refine steady_inState (respects_beside fun s => ?_)
      cases keep <;> rfl
    · exact steady_inState (respects_recordFault operation shown .endless)
  | error f => exact steady_inState (respects_recordFault operation shown f)

theorem steady_untraced {α : Type} {p : Program α} (hp : p.Steady) : (untraced p).Steady := by
  refine steady_bind (steady_liftState respects_get) fun before => ?_
  refine steady_bind (steady_observe hp) fun ending => ?_
  exact steady_bind (steady_inState (respects_beside fun _ => rfl)) fun _ => steady_answer _

theorem steady_countUp (counter : String) {body : Program Unit} (hb : body.Steady)
    (n i : Nat) : (countUp counter body n i).Steady := by
  induction n generalizing i with
  | zero => exact steady_pure _
  | succ n ih =>
    refine steady_bind (steady_inState (respects_beside fun _ => rfl)) fun _ => ?_
    exact steady_bind hb fun _ => ih (i + 1)

theorem steady_attemptAnswer (caught : List FaultKind) (r : Except Fault Unit) :
    (attemptAnswer caught r).Steady := by
  cases r with
  | ok u => exact steady_pure _
  | error f =>
    simp only [attemptAnswer]
    split
    · exact steady_pure _
    · exact steady_fail _

mutual

theorem Step.steady_exec (current : Value) : ∀ step : Step, (step.exec current).Steady
  | .attempt steps caught keep => by
    unfold Step.exec
    refine steady_recorded _ _ _ ?_
    refine steady_bind (steady_observe (steady_execAll current steps)) fun r => ?_
    exact steady_attemptAnswer caught r
  | .loop count counter steps => by
    unfold Step.exec
    refine steady_recorded _ _ _ (steady_bind (steady_untraced ?_) fun _ => steady_pure _)
    exact steady_countUp counter (steady_execAll current steps) _ _
  | .run r keep => by
    unfold Step.exec
    exact steady_recorded _ _ _ (r.steady_exec current)
  | .act a keep => by
    unfold Step.exec
    exact steady_recorded _ _ _ (a.steady_exec current)

theorem steady_execAll (current : Value) : ∀ steps : List Step, (execAll current steps).Steady
  | [] => by
    unfold execAll
    exact steady_pure _
  | step :: rest => by
    unfold execAll
    exact steady_bind (step.steady_exec current) fun _ => steady_execAll current rest

end

end Steps

/-! ### Code -/

theorem respects_lookupIn (v : Value) (name : String) :
    (lookupIn v name).Respects State.Leaves := fun s =>
  respects_inState (respects_inStore (Surroundings.respects_lookup s.world v name)) s

theorem Script.steady_code : Script.code.Steady := by
  intro c args named
  unfold Script.code
  split
  · exact steady_bind (steady_execAll _ _) fun _ => steady_run _ _
  · simp only
    split
    · exact steady_bind (steady_call _ _ _ _) fun e => steady_pure _
    · refine steady_bind (steady_liftState (respects_lookupIn _ _)) fun function => ?_
      unfold callValue
      split
      · exact steady_invoke _ _ _
      · exact steady_fail _
  · exact steady_fail _
  · exact steady_fail _
  · exact steady_bind (steady_call _ _ _ _) fun e => steady_pure _
  · exact steady_fail _
  · exact steady_bind (steady_call _ _ _ _) fun e => steady_pure _
  · refine steady_inState fun s => ?_
    exact respects_inState (respects_inStore (Handle.respects_call s.world _ _ _ _)) s
  · refine steady_inWorld (respects_inStore ?_)
    refine respects_bind (respects_ofExcept _) fun v => ?_
    split
    · exact respects_bind Store.respects_newId fun id => respects_pure _
    · exact respects_fail _

/-! ### Runs of scripts -/

def Step.program (step : Step) : Program Value := do
  step.exec .none
  pure .none

theorem Step.steady_program (step : Step) : step.program.Steady :=
  steady_bind (step.steady_exec .none) fun _ => steady_pure _

/-- What goes on in a script. Its program makes a step; once the program is over any step of
scripts may come next. -/
inductive Script.Goes : Machine → Machine → Prop
  | on {m m' : Machine} (made : Machine.Step Script.code m m') : Goes m m'
  | next {m : Machine} (ended : m.Over) (step : Step) :
      Goes m ⟨m.state, [], step.program, m.history⟩

abbrev Script.Leads : Machine → Machine → Prop := Relation.ReflTransGen Script.Goes

/-- Before a script runs on a host. -/
def Script.beginning (host : Host) : Machine := .initial (.initial host) (.done (.value .none))

theorem Script.Goes.move {m m' : Machine} (h : Script.Goes m m') : Move Script.code m m' := by
  cases h with
  | on made => exact made.move
  | next ended step =>
    obtain ⟨s, stack, program, h⟩ := m
    obtain ⟨rfl, x, rfl⟩ := ended
    exact .loaded step.program

theorem Script.Leads.moves {m m' : Machine} (h : Script.Leads m m') : Moves Script.code m m' :=
  Relation.ReflTransGen.mono (fun _ _ hs => hs.move) _ _ h

theorem Script.Leads.steps {m n m' : Machine} (h : Script.Leads m n)
    (hs : Machine.Steps Script.code n m') : Script.Leads m m' :=
  h.trans (Relation.ReflTransGen.mono (fun _ _ => .on) _ _ hs)

theorem Script.Leads.next {m : Machine} {s : State} {x : Outcome Value} {h : List Event}
    (hl : Script.Leads m ⟨s, [], .done x, h⟩) (step : Step) :
    Script.Leads m ⟨s, [], step.program, h⟩ :=
  hl.tail (.next ⟨rfl, x, rfl⟩ step)

theorem State.initial_fresh (host : Host) : (State.initial host).Fresh := fun b => by
  constructor <;> simp [State.initial, World.empty, World.session?, World.root?,
    World.builder?]

theorem Script.reachable_of_leads {host : Host} {m : Machine}
    (h : Script.Leads (Script.beginning host) m) : Reachable Script.code m :=
  Reachable.moves (.initial (State.initial_fresh host) _) h.moves

/-- No step of a script uses up the fuel. -/
def Script.Finishes (fuel : Nat) : State → List Step → Prop
  | _, [] => True
  | s, step :: rest =>
    let ended := (step.exec .none).run (callWithin Script.code fuel) s
    ended.1 ≠ .exhausted ∧ Script.Finishes fuel ended.2 rest

theorem Script.leads_foldl {fuel : Nat} {s : State} {steps : List Step}
    (finishes : Script.Finishes fuel s steps) {m : Machine} {x : Outcome Value}
    {h : List Event} (hl : Script.Leads m ⟨s, [], .done x, h⟩) :
    ∃ y h', Script.Leads m
      ⟨steps.foldl (fun s step =>
        ((step.exec .none).run (callWithin Script.code fuel) s).2) s, [], .done y, h'⟩ := by
  induction steps generalizing s x h with
  | nil => exact ⟨x, h, hl⟩
  | cons step rest ih =>
    obtain ⟨hended, hrest⟩ := finishes
    rcases hrun : (step.exec .none).run (callWithin Script.code fuel) s with ⟨y, t⟩
    rw [hrun] at hended hrest
    have hprogram : ∃ z, z ≠ .exhausted ∧
        step.program.run (callWithin Script.code fuel) s = (z, t) := by
      unfold Step.program
      rw [Program.run_bind, Proc.bind_apply, hrun]
      cases y with
      | value u => exact ⟨.value .none, by simp, rfl⟩
      | fault f => exact ⟨.fault f, by simp, rfl⟩
      | exhausted => exact absurd rfl hended
    obtain ⟨z, hz, hstep⟩ := hprogram
    obtain ⟨events, hm⟩ := runs_of_adequate (adequate_callWithin Script.steady_code fuel)
      step.steady_program hstep hz [] h
    rw [List.foldl_cons, hrun]
    exact ih hrest ((hl.next step).steps hm)

/-- What a script runs to is what its machine leads to. -/
theorem Script.leads_runWithin {fuel : Nat} {host : Host} {steps : List Step}
    (finishes : Script.Finishes fuel (.initial host) steps) :
    ∃ x h, Script.Leads (Script.beginning host)
      ⟨Script.runWithin fuel host steps, [], .done x, h⟩ :=
  Script.leads_foldl finishes .refl

end TagTree
