import TagTree.Proofs.Remarks
import TagTree.Script.Report

/-!
# What is written into the journal

Each operation of a tag call or a build writes notices of its builder at the end of the
journal, and leaves what stands there as it is.
-/

namespace TagTree

def Record.isOf (b : BuilderRef) : Record → Bool
  | .notice c _ _ => c = b
  | .conversion .. => false

namespace World

/-- The records of a builder in the journal, as they read. -/
def records (w : World) (b : BuilderRef) : List RecordReport :=
  (w.journal.filter (Record.isOf b)).map Record.report

/-- The second world has some more notices of a builder in its journal, each with what the
correlation read as when it was written. -/
def Tells (w : World) (b : BuilderRef) (ns : List (Datum × Notice)) (w' : World) : Prop :=
  w'.journal = w.journal ++ ns.map fun n => .notice b n.1 n.2

section Tells

variable {w w' w'' : World} {b d : BuilderRef} {ns ns' : List (Datum × Notice)}

theorem Tells.silent (b : BuilderRef) (h : w'.journal = w.journal) : w.Tells b [] w' := by
  rw [Tells, h]
  exact (List.append_nil _).symm

theorem Tells.trans (h : w.Tells b ns w') (h' : w'.Tells b ns' w'') :
    w.Tells b (ns ++ ns') w'' := by
  unfold Tells at h h' ⊢
  rw [h', h, List.append_assoc, List.map_append]

theorem Tells.notice (h : w'.journal = w.journal) (n : Notice) :
    w.Tells b [(w'.correlationOf b, n)] (w'.notice b n) := by
  rw [Tells, journal_notice, h]
  rfl

/-- What is written of a builder shows among its records, and among those of no other. -/
theorem Tells.records_self (h : w.Tells b ns w') :
    w'.records b = w.records b ++ ns.map fun n => (Record.notice b n.1 n.2).report := by
  rw [records, records, h, List.filter_append, List.map_append]
  congr 1
  rw [List.filter_eq_self.mpr, List.map_map]
  · rfl
  · intro r hr
    obtain ⟨n, -, rfl⟩ := List.mem_map.mp hr
    simp [Record.isOf]

theorem Tells.records_other (h : w.Tells d ns w') (hd : d ≠ b) :
    w'.records b = w.records b := by
  rw [records, records, h, List.filter_append]
  have hnone : (ns.map fun n => Record.notice d n.1 n.2).filter (Record.isOf b) = [] := by
    rw [List.filter_eq_nil_iff]
    intro r hr
    obtain ⟨n, -, rfl⟩ := List.mem_map.mp hr
    simpa [Record.isOf] using hd
  rw [hnone, List.append_nil]

theorem records_of_journal (b : BuilderRef) (h : w'.journal = w.journal) :
    w'.records b = w.records b := by
  rw [records, records, h]

end Tells

theorem correlationOf_eq {w : World} {b : BuilderRef} {x : Builder}
    (hx : w.builder? b = some x) : w.correlationOf b = w.read x.correlation := by
  simp [correlationOf, hx]

theorem shows_notice (w : World) (b : BuilderRef) (n : Notice) : w.Shows (w.notice b n) :=
  ⟨rfl, fun _ => rfl⟩

/-- The correlation of a builder reads the same after a notice. -/
theorem correlationOf_notice (w : World) (b c : BuilderRef) (n : Notice) :
    (w.notice b n).correlationOf c = w.correlationOf c := by
  simp only [correlationOf, builder?_notice, (shows_notice w b n).read]

/-! ### Beginning a build, and creation -/

theorem startBuild_tells (w : World) (b : BuilderRef) :
    w.Tells b [((w.startBuild b).correlationOf b, .started)] (w.startBuild b) := by
  rw [startBuild, correlationOf_notice]
  exact .notice (journal_updateBuilder w b Builder.start) .started

theorem create_tells (w : World) (b : BuilderRef) (c : TagCall) :
    w.Tells b [((w.create b c).2.correlationOf b,
      .created c.tag (((w.session? b).map Session.depth).getD 0) c.block.isSome)]
      (w.create b c).2 := by
  simp only [create, correlationOf_notice]
  refine .notice ?_ _
  rw [journal_updateBuilder]

/-! ### Ending a block -/

theorem changeElement_journal (w : World) (e : ElementRef)
    (f : Element → Except Fault Element) : (w.changeElement e f).2.journal = w.journal := by
  unfold changeElement
  cases w.store.element? e with
  | none => rfl
  | some x =>
    simp only
    cases f x <;> rfl

theorem fill_journal (w : World) (b : BuilderRef) (e : ElementRef) (start : Nat) (v : Value) :
    (w.fill b e start v).2.journal = w.journal := by
  unfold fill
  simp only
  split
  · exact changeElement_journal _ e _
  · split
    · exact changeElement_journal w e _
    · rfl

/-- Whether a builder writes of ambiguous blocks. -/
def warns (w : World) (b : BuilderRef) : Bool :=
  match w.policyOf b with
  | .ok .diagnostic => true
  | _ => false

def discardNotices (w : World) (b : BuilderRef) (e : ElementRef) : List (Datum × Notice) :=
  if w.warns b then [(w.correlationOf b, .discarded (w.tagOf e))] else []

theorem reportAmbiguous_tells (w : World) (b : BuilderRef) (e : ElementRef) (v : Value) :
    w.Tells b (w.discardNotices b e) (w.reportAmbiguous b e v).2 := by
  unfold reportAmbiguous discardNotices warns
  simp only
  cases w.policyOf b with
  | error f => exact .silent b rfl
  | ok p =>
    cases p with
    | strict => exact .silent b rfl
    | silent => exact .silent b rfl
    | diagnostic => exact (Tells.notice rfl _).trans (.silent b (remark_journal _ b _))

/-- Whether an element can take content. -/
def isOpen (w : World) (e : ElementRef) : Bool :=
  (w.store.element? e).any fun y => !y.isSealed

section Ending

variable {w : World} {b : BuilderRef} {e : ElementRef} {start : Nat} {v : Value}

theorem isOpen_of_changeElement {content : Content}
    (changed : (w.changeElement e (·.withContent content)).1 = .value ()) :
    w.isOpen e = true := by
  unfold changeElement at changed
  unfold isOpen
  cases hz : w.store.element? e with
  | none => simp [hz] at changed
  | some z =>
    cases hsealed : z.isSealed with
    | false => simp [hsealed]
    | true => simp [hz, Element.withContent, hsealed] at changed

/-- An element takes the elements created in its block if it is open. -/
theorem filled_iff (v : Value) (entries : w.loggedSince b start ≠ []) :
    (w.fill b e start v).1 = .value () ↔ w.isOpen e = true := by
  constructor
  · intro filled
    have hentries : (!(w.loggedSince b start).isEmpty) = true := by simpa using entries
    simp only [fill, hentries, if_true, giveChildren] at filled
    exact (isOpen_of_changeElement filled :)
  · intro opened
    obtain ⟨z, hz, hsealed⟩ := (Option.any_eq_true _ _).mp opened
    obtain ⟨u, filled⟩ := fill_of_unsealed b start v hz (by simpa using hsealed)
    rw [filled]

/-- The notices at the end of a block: of its value, if it is discarded and the element took
the elements created in the block. -/
def blockNotices (w : World) (b : BuilderRef) (e : ElementRef) (start : Nat) :
    Outcome Value → List (Datum × Notice)
  | .value v =>
    if w.Discards b start v ∧ w.isOpen e = true then
      (w.fill b e start v).2.discardNotices b e
    else []
  | _ => []

theorem settle_tells (w : World) (b : BuilderRef) (e : ElementRef) (start : Nat) (v : Value) :
    w.Tells b (w.blockNotices b e start (.value v)) (w.settle b e start v).2 := by
  have hjournal := fill_journal w b e start v
  have hset := settling w b e start v
  generalize w.settle b e start v = r at hset ⊢
  rw [blockNotices]
  cases hset with
  | refused unfilled =>
    rw [if_neg fun h => unfilled ((filled_iff v h.1.1).mpr h.2)]
    exact .silent b hjournal
  | quiet filled plain =>
    have kept : ¬ w.Discards b start v := by
      rintro ⟨-, given, foreign⟩
      rcases plain with hnone | ⟨-, hlogged⟩
      · rw [hnone] at given
        cases given
      · rw [hlogged] at foreign
        cases foreign
    rw [filled] at hjournal
    rw [if_neg fun h => kept h.1]
    exact .silent b hjournal
  | scalar filled bare =>
    rw [filled] at hjournal
    rw [if_neg fun h => h.1.1 bare]
    exact .silent b hjournal
  | @ambiguous u filled entries given foreign =>
    have opened : w.isOpen e = true := (filled_iff v entries).mp (by rw [filled])
    rw [filled] at hjournal
    rw [if_pos ⟨⟨entries, given, foreign⟩, opened⟩, filled]
    exact (Tells.silent b hjournal).trans (reportAmbiguous_tells u b e v)

end Ending

end World

theorem endBlock_tells (b : BuilderRef) (e : ElementRef) (start : Nat) (x : Outcome Value)
    (s : State) : s.world.Tells b (s.world.blockNotices b e start x)
      (endBlock b e start x s).2.world := by
  cases x with
  | value v =>
    have hsettled := (World.settle_tells s.world b e start v).trans
      (.silent b rfl : World.Tells _ b [] (endBlock b e start (.value v) s).2.world)
    rw [List.append_nil] at hsettled
    exact hsettled
  | fault f => exact .silent b rfl
  | exhausted => exact .silent b rfl

/-! ### Ending a build -/

namespace World

theorem failBuild_tells (w : World) (b : BuilderRef) (f : Fault) :
    w.Tells b (if f.isException
      then [(w.correlationOf b, .failed (w.countersOf b).elementsCreated f.kind)] else [])
      (w.failBuild b f) := by
  unfold failBuild
  split
  · exact (Tells.notice rfl _).trans (.silent b rfl)
  · exact .silent b rfl

theorem reportOrphans_tells (w : World) (b : BuilderRef) (s : Session) (root : ElementRef) :
    w.Tells b (if orphansOf s = [] then []
      else [(w.correlationOf b, .orphaned (w.tagOf root) (orphansOf s).length)])
      (w.reportOrphans b s root) := by
  unfold reportOrphans
  cases orphansOf s with
  | nil => exact .silent b rfl
  | cons e more =>
    simp only [List.map_cons, List.isEmpty_cons, Bool.false_eq_true, if_false, reduceCtorEq]
    rw [← List.map_cons, List.length_map]
    exact (Tells.notice rfl _).trans (.silent b (remark_journal _ b _))

theorem countersOf_annotated {w w' : World} {b : BuilderRef} {rs : List Remark}
    (h : w.Alters b (Builder.annotated rs 0) w') : w'.countersOf b = w.countersOf b := by
  unfold countersOf
  rw [h.self]
  cases w.builder? b <;> rfl

theorem completeBuild_tells (w : World) (b : BuilderRef) (s : Session) (root : ElementRef) :
    w.Tells b ((if orphansOf s = [] then []
        else [(w.correlationOf b, .orphaned (w.tagOf root) (orphansOf s).length)]) ++
      [((w.completeBuild b s root).correlationOf b, .completed (w.tagOf root)
        (w.countersOf b).elementsCreated (w.countersOf b).maxDepthReached)])
      (w.completeBuild b s root) := by
  obtain ⟨rs, hrs⟩ := reportOrphans_alters w b s root
  have hcounters := countersOf_annotated hrs
  have htag : (w.reportOrphans b s root).tagOf root = w.tagOf root := by
    rw [tagOf, tagOf, reportOrphans_store]
  refine (reportOrphans_tells w b s root).trans ?_
  rw [completeBuild, correlationOf_notice]
  simp only [hcounters, htag]
  exact .notice (journal_updateBuilder _ b _) _

end World

theorem endBuild_tells {b : BuilderRef} {s : State} {session : Session}
    (hs : s.world.session? b = some session) (x : Outcome Value) :
    ∃ ns, s.world.Tells b ns (endBuild b x s).2.world := by
  cases x with
  | value v =>
    simp only [endBuild, World.concludeBuild, hs]
    cases session.root with
    | none => exact ⟨_, World.failBuild_tells s.world b .noRoot⟩
    | some root => exact ⟨_, World.completeBuild_tells s.world b session root⟩
  | fault f => exact ⟨_, World.failBuild_tells s.world b f⟩
  | exhausted => exact ⟨[], .silent b rfl⟩

theorem attachContent_journal (e : ElementRef) (change : Element → Except Fault Element)
    (s : State) : (Program.attachContent e change s).2.world.journal = s.world.journal :=
  World.changeElement_journal s.world e change

end TagTree
