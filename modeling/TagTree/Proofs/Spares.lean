import TagTree.Proofs.Machine
import TagTree.Proofs.Matching

/-!
# What code leaves alone

Objects and names can be reserved. Code that makes no tag call and runs no build on reserved
builders, attaches nothing to reserved elements, and by itself leaves reserved objects and
names as they are, leaves them as they are when it runs, whatever else it does.
-/

namespace TagTree

/-! ### Worlds -/

/-- Objects in a set are the same in both worlds, no object is gone, and host holds as much. -/
structure World.Spares (P : Object → Prop) (w v : World) : Prop where
  element : ∀ e, P (.element e) → v.store.element? e = w.store.element? e
  list : ∀ l, P (.list l) → v.store.lists[l.index]? = w.store.lists[l.index]?
  dict : ∀ d, P (.dict d) → v.store.dicts[d.index]? = w.store.dicts[d.index]?
  builder : ∀ b, P (.builder b) → v.builder? b = w.builder? b
  grows : ∀ o : Object, o.In w → o.In v
  host : v.store.host = w.store.host

namespace World.Spares

variable {P : Object → Prop} {u v w : World} {b : BuilderRef} {e : ElementRef}

theorem refl (w : World) : w.Spares P w :=
  ⟨fun _ _ => rfl, fun _ _ => rfl, fun _ _ => rfl, fun _ _ => rfl, fun _ h => h,
    rfl⟩

theorem trans (h : u.Spares P v) (h' : v.Spares P w) : u.Spares P w where
  element e he := (h'.element e he).trans (h.element e he)
  list l hl := (h'.list l hl).trans (h.list l hl)
  dict d hd := (h'.dict d hd).trans (h.dict d hd)
  builder b hb := (h'.builder b hb).trans (h.builder b hb)
  grows o ho := h'.grows o (h.grows o ho)
  host := h'.host.trans h.host

theorem imp {Q : Object → Prop} (h : w.Spares P v) (hq : ∀ o, Q o → P o) : w.Spares Q v where
  element e he := h.element e (hq _ he)
  list l hl := h.list l (hq _ hl)
  dict d hd := h.dict d (hq _ hd)
  builder b hb := h.builder b (hq _ hb)
  grows := h.grows
  host := h.host

theorem notice (w : World) (b : BuilderRef) (n : Notice) : w.Spares P (w.notice b n) :=
  ⟨fun _ _ => rfl, fun _ _ => rfl, fun _ _ => rfl, fun _ _ => rfl,
    fun o h => by cases o <;> exact h, rfl⟩

theorem updateBuilder (w : World) (hb : ¬ P (.builder b)) (f : Builder → Builder) :
    w.Spares P (w.updateBuilder b f) where
  element _ _ := rfl
  list _ _ := rfl
  dict _ _ := rfl
  builder c hc := by
    rw [builder?_updateBuilder, if_neg]
    rintro rfl
    exact hb hc
  grows o h := by
    cases o with
    | builder c => simpa [Object.In, World.updateBuilder] using h
    | _ => exact h
  host := rfl

theorem newId (w : World) :
    w.Spares P { w with store := { w.store with nextId := w.store.nextId + 1 } } where
  element _ _ := rfl
  list _ _ := rfl
  dict _ _ := rfl
  builder _ _ := rfl
  grows o h := by
    cases o with
    | identity n => exact Nat.lt_succ_of_lt h
    | _ => exact h
  host := rfl

theorem pushElement (w : World) (hP : ∀ e, P (.element e) → (Object.element e).In w)
    (x : Element) :
    w.Spares P { w with store := { w.store with elements := w.store.elements.push x } } where
  element e he := by
    have hlt : e.index < w.store.elements.size := hP e he
    simp only [Store.element?, Array.getElem?_push]
    rw [if_neg (by omega)]
  list _ _ := rfl
  dict _ _ := rfl
  builder _ _ := rfl
  grows o h := by
    cases o with
    | element e => simpa [Object.In] using Nat.lt_succ_of_lt h
    | _ => exact h
  host := rfl

theorem setElement (w : World) (he : ¬ P (.element e)) (x : Element) :
    w.Spares P { w with store := w.store.setElement e x } where
  element d hd := by
    have hi : e.index ≠ d.index := fun hi => he (by cases e; cases d; simp_all)
    simp [Store.setElement, Store.element?, hi]
  list _ _ := rfl
  dict _ _ := rfl
  builder _ _ := rfl
  grows o h := by
    cases o with
    | element e => simpa [Object.In, Store.setElement] using h
    | _ => exact h
  host := rfl

theorem pushBuilder (w : World) (hP : ∀ b, P (.builder b) → (Object.builder b).In w)
    (x : Builder) : w.Spares P { w with builders := w.builders.push x } where
  element _ _ := rfl
  list _ _ := rfl
  dict _ _ := rfl
  builder b hb := by
    have hlt : b.index < w.builders.size := hP b hb
    simp only [builder?, Array.getElem?_push]
    rw [if_neg (by omega)]
  grows o h := by
    cases o with
    | builder b => simpa [Object.In] using Nat.lt_succ_of_lt h
    | _ => exact h
  host := rfl

/-! ### Tag calls and builds -/

theorem changeElement (w : World) (he : ¬ P (.element e)) (f : Element → Except Fault Element) :
    w.Spares P (w.changeElement e f).2 := by
  unfold World.changeElement
  cases w.store.element? e with
  | none => exact refl w
  | some x =>
    simp only
    cases f x with
    | ok y => exact setElement w he y
    | error g => exact refl w

theorem giveChildren (w : World) (he : ¬ P (.element e)) (children : List ElementRef) :
    w.Spares P (w.giveChildren e children).2 :=
  (newId w).trans (changeElement _ he _)

theorem remark (w : World) (hb : ¬ P (.builder b)) (r : Remark) : w.Spares P (w.remark b r) := by
  unfold World.remark
  cases w.builder? b with
  | none => exact refl w
  | some x =>
    simp only
    split
    · exact updateBuilder w hb _
    · exact refl w

theorem reportAmbiguous (w : World) (hb : ¬ P (.builder b)) (e : ElementRef) (v : Value) :
    w.Spares P (w.reportAmbiguous b e v).2 := by
  unfold World.reportAmbiguous
  simp only
  cases w.policyOf b with
  | error f => exact refl w
  | ok p =>
    cases p with
    | diagnostic => exact (notice w b _).trans (remark _ hb _)
    | _ => exact refl w

theorem settle (w : World) (hb : ¬ P (.builder b)) (he : ¬ P (.element e)) (start : Nat)
    (v : Value) : w.Spares P (w.settle b e start v).2 := by
  unfold World.settle
  simp only
  split
  · have given := giveChildren w he
      (directly (((w.session? b).map Session.depth).getD 0) (w.loggedSince b start))
    split
    · rename_i w' heq
      rw [heq] at given
      split
      · exact given.trans (reportAmbiguous w' hb e v)
      · exact given
    · exact given
  · have attached := changeElement w he (·.attachText v)
    split
    · split
      · rename_i w' heq
        rw [heq] at attached
        exact attached.trans (updateBuilder w' hb _)
      · exact attached
    · exact refl w

theorem create (w : World) (hP : ∀ e, P (.element e) → (Object.element e).In w)
    (hb : ¬ P (.builder b)) (c : TagCall) : w.Spares P (w.create b c).2 :=
  ((pushElement w hP _).trans (updateBuilder _ hb _)).trans (notice _ b _)

theorem startBuild (w : World) (hb : ¬ P (.builder b)) : w.Spares P (w.startBuild b) :=
  (updateBuilder w hb _).trans (notice _ b _)

theorem failBuild (w : World) (hb : ¬ P (.builder b)) (f : Fault) :
    w.Spares P (w.failBuild b f) := by
  unfold World.failBuild
  simp only
  split
  · exact (notice w b _).trans (updateBuilder _ hb _)
  · exact updateBuilder w hb _

theorem completeBuild (w : World) (hb : ¬ P (.builder b)) (s : Session) (root : ElementRef) :
    w.Spares P (w.completeBuild b s root) := by
  have reported : w.Spares P (w.reportOrphans b s root) := by
    unfold World.reportOrphans
    simp only
    split
    · exact refl w
    · exact (notice w b _).trans (remark _ hb _)
  exact (reported.trans (updateBuilder _ hb _)).trans (notice _ b _)

theorem concludeBuild (w : World) (hb : ¬ P (.builder b)) :
    w.Spares P (w.concludeBuild b).2 := by
  unfold World.concludeBuild
  cases w.session? b with
  | none => exact refl w
  | some s =>
    simp only
    cases s.root with
    | none => exact failBuild w hb _
    | some root => exact completeBuild w hb s root

end World.Spares

/-! ### States -/

/-- Objects, and names of variables and builders, that belong to other code. -/
structure Reserve where
  objects : Object → Prop
  names : String → Prop

/-- What is reserved is as it was. -/
structure State.Spares (R : Reserve) (s t : State) : Prop where
  world : s.world.Spares R.objects t.world
  binding : ∀ n, R.names n →
    Table.find? (· == ·) n t.bindings = Table.find? (· == ·) n s.bindings
  builder : ∀ n, R.names n →
    Table.find? (· == ·) n t.builders = Table.find? (· == ·) n s.builders

/-- Reserved objects exist. -/
def Reserve.Held (R : Reserve) (s : State) : Prop := ∀ o, R.objects o → o.In s.world

section States

variable {R : Reserve} {s t u : State} {b : BuilderRef} {e : ElementRef}

theorem State.Spares.refl (s : State) : s.Spares R s := ⟨.refl _, fun _ _ => rfl, fun _ _ => rfl⟩

theorem State.Spares.trans (h : s.Spares R t) (h' : t.Spares R u) : s.Spares R u where
  world := h.world.trans h'.world
  binding n hn := (h'.binding n hn).trans (h.binding n hn)
  builder n hn := (h'.builder n hn).trans (h.builder n hn)

theorem State.Spares.of_world {w : World} (h : s.world.Spares R.objects w) :
    s.Spares R { s with world := w } := ⟨h, fun _ _ => rfl, fun _ _ => rfl⟩

theorem State.Spares.held (h : s.Spares R t) (held : R.Held s) : R.Held t :=
  fun o ho => h.world.grows o (held o ho)

theorem attachContent_spares (s : State) (he : ¬ R.objects (.element e))
    (change : Element → Except Fault Element) :
    s.Spares R (Program.attachContent e change s).2 := .of_world (.changeElement _ he _)

theorem createElement_spares (held : R.Held s) (hb : ¬ R.objects (.builder b)) (c : TagCall) :
    s.Spares R (createElement b c s) := .of_world (.create _ (fun e => held (.element e)) hb c)

theorem created_unreserved (held : R.Held s) (b : BuilderRef) (c : TagCall) :
    ¬ R.objects (.element (s.world.create b c).1) := fun h =>
  Nat.lt_irrefl _ (held _ h)

theorem enterBlock_spares (s : State) (hb : ¬ R.objects (.builder b)) :
    s.Spares R (enterBlock b s) := .of_world (.updateBuilder _ hb _)

theorem leaveBlock_spares (s : State) (hb : ¬ R.objects (.builder b)) :
    s.Spares R (leaveBlock b s) := .of_world (.updateBuilder _ hb _)

theorem endBlock_spares (s : State) (hb : ¬ R.objects (.builder b))
    (he : ¬ R.objects (.element e)) (start : Nat) (ending : Outcome Value) :
    s.Spares R (endBlock b e start ending s).2 := by
  cases ending with
  | value v =>
    exact .trans (.of_world (.settle s.world hb he start v)) (leaveBlock_spares _ hb)
  | fault f => exact leaveBlock_spares s hb
  | exhausted => exact leaveBlock_spares s hb

theorem startBuild_spares (s : State) (hb : ¬ R.objects (.builder b)) :
    s.Spares R (s.onWorld (·.startBuild b)) := .of_world (.startBuild _ hb)

theorem endBuild_spares (s : State) (hb : ¬ R.objects (.builder b)) (ending : Outcome Value) :
    s.Spares R (endBuild b ending s).2 := by
  cases ending with
  | value v => exact .of_world (.concludeBuild s.world hb)
  | fault f => exact .of_world (.failBuild s.world hb f)
  | exhausted => exact .of_world (.updateBuilder s.world hb _)

end States

/-! ### Programs -/

/-- What is asked of the program that goes on after a deed, whose ending it is given. -/
def After {α : Type} (ran : Outcome α × State) (goesOn : Except Fault α → State → Prop) : Prop :=
  match ran.1 with
  | .value a => goesOn (.ok a) ran.2
  | .fault f => goesOn (.error f) ran.2
  | .exhausted => True

/-- What a program may do: by itself, to elements by hand, and on builders. -/
structure Permit where
  acts : State → State → Prop
  attaches : ElementRef → Prop
  calls : BuilderRef → Prop

/-- Whatever leaves alone what is reserved. -/
def Reserve.permit (R : Reserve) : Permit where
  acts := State.Spares R
  attaches e := ¬ R.objects (.element e)
  calls b := ¬ R.objects (.builder b)

/-- Anything but tag calls on a builder and its builds. -/
def Permit.except (b : BuilderRef) : Permit := ⟨fun _ _ => True, fun _ => True, (· ≠ b)⟩

/-- What holds of the callables that a program calls, at the states in which it calls them. -/
abbrev CallerHolds := Callable Value → List Value → List (String × Value) → State → Prop

/-- A program that does what is permitted when it runs from a state. It may call what does so
too. -/
def Program.Abides (P : Permit) (caller : Caller) (inside : CallerHolds) {α : Type} :
    Program α → State → Prop
  | .done _, _ => True
  | .act p next, s => P.acts s (p s).2 ∧
    After (p s) fun r t => (next r).Abides P caller inside t
  | .attach e change next, s => P.attaches e ∧
    After (attachContent e change s) fun r t => (next r).Abides P caller inside t
  | .tag b name args named next, s => P.calls b ∧
    (∀ c block, s.world.admitCall b name args named = .value c → c.block = some block →
      inside block [handleFor b (enterBlock b (createElement b c s))] []
        (enterBlock b (createElement b c s))) ∧
    After (tagCall caller b name args named s) fun r t => (next r).Abides P caller inside t
  | .build b block next, s => P.calls b ∧
    (∀ c, s.world.admitBuild b block = .value c →
      inside c [handleFor b (s.onWorld (·.startBuild b))] [] (s.onWorld (·.startBuild b))) ∧
    After (TagTree.build caller b block s) fun r t => (next r).Abides P caller inside t
  | .apply c args named next, s => inside c args named s ∧
    After (caller c args named s) fun r t => (next r).Abides P caller inside t

/-- What code must do as permitted when a callable runs with some fuel. -/
def abidesWithin (P : Permit) (code : Code) : Nat → CallerHolds
  | 0 => fun _ _ _ _ => True
  | n + 1 => fun c args named s =>
    (code c args named).Abides P (callWithin code n) (abidesWithin P code n) s

section Running

variable {R : Reserve} {caller : Caller} {inside : CallerHolds}

/-- Calls of what keeps off what is reserved leave it as it is. -/
def Sparing (R : Reserve) (caller : Caller) (inside : CallerHolds) : Prop :=
  ∀ c args named s, R.Held s → inside c args named s → s.Spares R (caller c args named s).2

theorem tagCall_spares (sparing : Sparing R caller inside) {s : State} (held : R.Held s)
    {b : BuilderRef} {name : Value} {args : List Value} {named : List (String × Value)}
    (hb : ¬ R.objects (.builder b))
    (inner : ∀ c block, s.world.admitCall b name args named = .value c → c.block = some block →
      inside block [handleFor b (enterBlock b (createElement b c s))] []
        (enterBlock b (createElement b c s))) :
    s.Spares R (tagCall caller b name args named s).2 := by
  unfold tagCall
  cases hc : s.world.admitCall b name args named with
  | fault f => exact .refl s
  | exhausted => exact .refl s
  | value c =>
    have created := createElement_spares held hb c
    simp only
    cases hblock : c.block with
    | none => exact created
    | some block =>
      have entered := created.trans (enterBlock_spares _ hb)
      have ran := entered.trans
        (sparing _ _ _ _ (entered.held held) (inner c block hc hblock))
      exact ran.trans (endBlock_spares _ hb (created_unreserved held b c) _ _)

theorem build_spares (sparing : Sparing R caller inside) {s : State} (held : R.Held s)
    {b : BuilderRef} {block : Value} (hb : ¬ R.objects (.builder b))
    (inner : ∀ c, s.world.admitBuild b block = .value c →
      inside c [handleFor b (s.onWorld (·.startBuild b))] [] (s.onWorld (·.startBuild b))) :
    s.Spares R (build caller b block s).2 := by
  unfold build
  cases hc : s.world.admitBuild b block with
  | fault f => exact .refl s
  | exhausted => exact .refl s
  | value c =>
    have started := startBuild_spares s hb
    have ran := started.trans (sparing _ _ _ _ (started.held held) (inner c hc))
    exact ran.trans (endBuild_spares _ hb _)

/-- A deed that leaves what is reserved as it is, and then a program that does. -/
theorem spares_after {α β : Type} {s : State} {d : Proc State β}
    {next : Except Fault β → Program α} {goesOn : Except Fault β → State → Prop}
    (deed : s.Spares R (d s).2) (after : After (d s) goesOn)
    (rest : ∀ r t, s.Spares R t → goesOn r t → s.Spares R ((next r).run caller t).2) :
    s.Spares R ((Proc.observe d >>= fun r => (next r).run caller) s).2 := by
  rw [Proc.bind_apply]
  unfold Proc.observe
  rcases hd : d s with ⟨y, t⟩
  rw [hd] at deed after
  cases y with
  | value a => exact rest _ _ deed after
  | fault f => exact rest _ _ deed after
  | exhausted => exact deed

theorem Program.spares_run (sparing : Sparing R caller inside) {α : Type} {p : Program α}
    {s : State} (held : R.Held s) (h : p.Abides R.permit caller inside s) :
    s.Spares R (p.run caller s).2 := by
  induction p generalizing s with
  | done x => exact .refl s
  | act d next ih =>
    exact spares_after h.1 h.2 fun r t ht hr => ht.trans (ih r (ht.held held) hr)
  | attach e change next ih =>
    exact spares_after (attachContent_spares s h.1 change) h.2
      fun r t ht hr => ht.trans (ih r (ht.held held) hr)
  | tag b name args named next ih =>
    exact spares_after (tagCall_spares sparing held h.1 h.2.1) h.2.2
      fun r t ht hr => ht.trans (ih r (ht.held held) hr)
  | build b block next ih =>
    exact spares_after (build_spares sparing held h.1 h.2.1) h.2.2
      fun r t ht hr => ht.trans (ih r (ht.held held) hr)
  | apply c args named next ih =>
    exact spares_after (sparing c args named s held h.1) h.2
      fun r t ht hr => ht.trans (ih r (ht.held held) hr)

theorem sparing_callWithin (R : Reserve) (code : Code) (n : Nat) :
    Sparing R (callWithin code n) (abidesWithin R.permit code n) := by
  induction n with
  | zero => exact fun _ _ _ s _ _ => .refl s
  | succ n ih => exact fun c args named s held h => Program.spares_run ih held h

end Running

end TagTree
