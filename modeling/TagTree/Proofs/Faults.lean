import TagTree.Proofs.Indentation
import TagTree.Proofs.Layers

/-!
# Faults of operations

Content is given to an element once. That it is given twice is one fault among many, and it
comes from nowhere but giving content: reading settings, writing texts, admitting calls and
builds and constructing elements fail otherwise, and a block fills an element that is open.
-/

namespace TagTree

/-! ### Settings and sizes -/

/-- A fault other than that of content given twice. -/
def Fault.Single : Fault → Prop
  | .alreadySealed _ => False
  | _ => True

/-- A fault that comes of reading and writing: no content was given twice, and no values are
kept in it. -/
def Fault.Plain : Fault → Prop
  | .reported .. | .argumentShape .. | .nestingLimit .. | .ambiguousBlock .. => False
  | .alreadySealed _ => False
  | _ => True

theorem Fault.Plain.single {f : Fault} (h : f.Plain) : f.Single := by
  cases f <;> trivial

/-- A fault of reading settings or writing texts. -/
def Fault.Textual : Fault → Prop
  | .privateName _ | .noAttribute .. | .noAttributeOfKind .. | .noRoot => True
  | .notRepeatable _ | .textTooLong | .outOfMemory | .unwrittenInteger => True
  | .notIndexSized kind => kind = .overflow
  | _ => False

theorem Fault.Textual.plain {f : Fault} (h : f.Textual) : f.Plain := by
  cases f with
  | reported | argumentShape | nestingLimit | ambiguousBlock | alreadySealed => exact h
  | _ => trivial

/-- Handlers of ordinary exceptions see what reading and writing fail with. -/
theorem Fault.Textual.isException {f : Fault} (h : f.Textual) : f.kind.isException = true := by
  cases f with
  | notIndexSized kind =>
    obtain rfl : kind = .overflow := h
    rfl
  | privateName | noAttribute | noAttributeOfKind | noRoot | notRepeatable => rfl
  | textTooLong | outOfMemory | unwrittenInteger => rfl
  | _ => cases h

theorem Fault.lacking_textual (v : Value) (name : String) : (Fault.lacking v name).Textual := by
  unfold lacking
  split
  · trivial
  · split <;> trivial
  · trivial
  · trivial

theorem Element.tagOf_plain {v : Value} {f : Fault} (h : tagOf v = .error f) : f.Plain := by
  unfold tagOf at h
  split at h
  · split at h
    · cases h
      trivial
    · cases h
  · cases h
    trivial

theorem Element.elementsOf_plain {items : List Value} {f : Fault}
    (h : elementsOf items = .error f) : f.Plain := by
  induction items with
  | nil => cases h
  | cons v rest ih =>
    cases v with
    | element e =>
      rw [elementsOf] at h
      cases hr : elementsOf rest with
      | ok es =>
        rw [hr] at h
        cases h
      | error g =>
        rw [hr] at h
        cases h
        exact ih hr
    | _ =>
      cases h
      trivial

namespace World

variable {w : World} {f : Fault}

theorem unreservesWithin_textual {n : Nat} {c : Configuration}
    (h : w.unreservesWithin n c = .error f) : f.Textual := by
  fun_induction World.unreservesWithin w n c with
  | case1 => cases h
  | case2 => cases h
  | case3 n g x hx ih =>
    cases hu : w.unreservesWithin n x.configuration with
    | ok u =>
      rw [hu] at h
      cases h
    | error g =>
      rw [hu] at h
      cases h
      exact ih hu
  | case4 =>
    cases h
    exact Fault.lacking_textual _ _

theorem resolveName_textual {c : Configuration} {name : String}
    (h : w.resolveName c name = .error f) : f.Textual := by
  rcases bind_eq_error h with h | ⟨u, -, h⟩
  · exact unreservesWithin_textual h
  · cases h

theorem lookupTag_textual {b : BuilderRef} {name : String}
    (h : w.lookupTag b name = .error f) : f.Textual := by
  unfold lookupTag at h
  split at h
  · cases h
    trivial
  · split at h
    · cases h
    · exact resolveName_textual h

theorem settingOf_textual {c : Configuration} {n : SettingName}
    (h : w.settingOf c n = .error f) : f.Textual := by
  unfold settingOf at h
  split at h
  · cases h
  · rcases bind_eq_error h with h | ⟨u, -, h⟩
    · exact lookupTag_textual h
    · cases h
  · split at h
    · cases h
    · cases h
      exact Fault.lacking_textual _ _
  · cases h
    exact Fault.lacking_textual _ _

theorem settingOf_plain {c : Configuration} {n : SettingName}
    (h : w.settingOf c n = .error f) : f.Plain := (settingOf_textual h).plain

theorem length_textual {memory size : Nat} {v : Value}
    (h : Repetition.length memory size v = .error f) : f.Textual := by
  rcases Repetition.length_error h with ⟨-, rfl⟩ | rfl | rfl | rfl
  · trivial
  · rfl
  · trivial
  · trivial

theorem indentation_textual {memory : Nat} {width depth : Value}
    (h : Repetition.indentation memory width depth = .error f) : f.Textual := by
  rcases bind_eq_error h with h | ⟨u, -, h⟩
  · exact length_textual h
  · exact length_textual h

/-! ### Writing -/

theorem plainText_textual {v : Value} (h : w.plainText v = .error f) : f.Textual := by
  cases v with
  | atom a =>
    rw [plainText, Atom.written] at h
    split at h <;> cases h
    trivial
  | _ => cases h

theorem renderWith_textual {write : Value → Outcome String}
    (hw : ∀ v, (write v).FailsOnly Fault.Textual True) (e : ElementRef) (width : Value)
    (depth : Int) : (w.renderWith write e width depth).FailsOnly Fault.Textual True := by
  have fits (d : Int) : (w.indentable width d).FailsOnly Fault.Textual True :=
    indentable_failsOnly fun _ => indentation_textual
  have found : (Outcome.ofOption (w.store.tree? e)).FailsOnly Fault.Textual True := by
    cases w.store.tree? e <;> trivial
  exact found.bind fun t _ => (ElementTree.markup_failsOnly (.all hw t) fits depth).bind
    fun m _ => trivial

theorem renderBuilderWith_textual {write : Value → Outcome String}
    (hw : ∀ v, (write v).FailsOnly Fault.Textual True) (b : BuilderRef) :
    (w.renderBuilderWith write b).FailsOnly Fault.Textual True := by
  unfold renderBuilderWith
  split
  · trivial
  · split
    · trivial
    · exact (Outcome.failsOnly_ofExcept fun f hf => settingOf_textual hf).bind
        fun width _ => renderWith_textual hw _ width 0

theorem writeWithin_textual (n : Nat) (v : Value) :
    (w.writeWithin n v).FailsOnly Fault.Textual True := by
  induction n generalizing v with
  | zero => trivial
  | succ n ih =>
    have plain : (Outcome.ofExcept (w.plainText v)).FailsOnly Fault.Textual True :=
      Outcome.failsOnly_ofExcept fun f hf => plainText_textual hf
    cases v with
    | element e => exact renderWith_textual ih e _ 0
    | builder b => exact renderBuilderWith_textual ih b
    | _ => exact plain

theorem write_textual (v : Value) : (w.write v).FailsOnly Fault.Textual True :=
  writeWithin_textual _ v

theorem write_plain (v : Value) : (w.write v).FailsOnly Fault.Plain True :=
  (write_textual v).imp fun _ => Fault.Textual.plain

theorem single_of_plain {α : Type} {x : Except Fault α}
    (h : ∀ f, x = .error f → f.Plain) : (Outcome.ofExcept x).FailsOnly Fault.Single True :=
  Outcome.failsOnly_ofExcept fun f hf => (h f hf).single

theorem write_single (v : Value) : (w.write v).FailsOnly Fault.Single True :=
  (write_plain v).imp fun _ => Fault.Plain.single

/-! ### Admission -/

theorem resolveNamed_plain {c : Configuration} {named : List (String × Value)}
    (h : w.resolveNamed c named = .error f) : f.Plain := by
  rcases bind_eq_error h with h | ⟨spelled, -, h⟩
  · obtain ⟨a, -, h⟩ := exists_of_mapM_error h
    rcases bind_eq_error h with h | ⟨name, -, h⟩
    · exact (resolveName_textual h).plain
    · cases h
  · cases h

theorem limitReached_plain {depth : Nat} {limit : Value} (h : limitReached depth limit = .error f) :
    f.Plain := by
  unfold limitReached at h
  split at h
  · cases h
  · cases h
  · cases h
  · split at h
    · cases h
    · cases h
      trivial

theorem limitText_textual (limit : Value) :
    (w.limitText limit).FailsOnly Fault.Textual True := by
  unfold limitText
  split
  · trivial
  · exact write_textual _

theorem checkLimit_single (name limit : Value) (depth : Nat) (hasBlock : Bool) :
    (w.checkLimit name limit depth hasBlock).FailsOnly Fault.Single True := by
  unfold checkLimit
  split
  · split
    · rename_i hl
      exact (limitReached_plain hl).single
    · trivial
    · exact (write_single name).bind fun _ _ =>
        ((limitText_textual limit).imp fun _ h => h.plain.single).bind fun _ _ => trivial
  · trivial

theorem admitCall_single (b : BuilderRef) (name : Value) (args : List Value)
    (named : List (String × Value)) :
    (w.admitCall b name args named).FailsOnly Fault.Single True := by
  unfold admitCall
  split
  · trivial
  · split
    · exact (write_single name).bind fun _ _ => trivial
    · unfold admitInSession
      refine (single_of_plain fun _ => resolveNamed_plain).bind fun _ _ => ?_
      split
      · exact (write_single name).bind fun _ _ => trivial
      · refine (single_of_plain fun _ => settingOf_plain).bind fun limit _ => ?_
        refine (checkLimit_single name limit _ _).bind fun _ _ => ?_
        exact (single_of_plain fun _ => Element.tagOf_plain).bind fun tag _ => trivial

theorem admitBuild_single (b : BuilderRef) (block : Value) :
    (w.admitBuild b block).FailsOnly Fault.Single True := by
  unfold admitBuild
  split
  · trivial
  · split
    · trivial
    · split <;> trivial

/-! ### Filling -/

section Filling

variable {b : BuilderRef} {e : ElementRef} {x : Element}

theorem changeElement_open (c : Content) (hx : w.store.element? e = some x)
    (hs : x.isSealed = false) : w.changeElement e (·.withContent c) =
      (.value (), { w with store := w.store.setElement e (x.filled c) }) :=
  changeElement_self hx (Element.withContent_of_open hs c)

theorem giveChildren_open (children : List ElementRef) (hx : w.store.element? e = some x)
    (hs : x.isSealed = false) : ∃ w', w.giveChildren e children = (.value (), w') ∧
      w'.store.element? e = some (x.filled (.children w.store.nextId children)) := by
  have hx' : ({ w with store := { w.store with nextId := w.store.nextId + 1 } } :
      World).store.element? e = some x := hx
  exact ⟨_, changeElement_open _ hx' hs, element?_setElement _ hx'⟩

theorem policyOf_plain {b : BuilderRef} {f : Fault} (h : w.policyOf b = .error f) : f.Plain := by
  unfold policyOf at h
  split at h
  · cases h
  · rcases bind_eq_error h with h | ⟨v, -, h⟩
    · exact settingOf_plain h
    · split at h <;> cases h

theorem reportAmbiguous_single (b : BuilderRef) (e : ElementRef) (v : Value) :
    (w.reportAmbiguous b e v).1.FailsOnly Fault.Single True := by
  unfold reportAmbiguous
  simp only
  split
  · rename_i f hp
    exact (policyOf_plain hp).single
  · trivial
  · trivial
  · trivial

/-- Settling fills an open element at most once, with children or a text. -/
theorem settle_fills (b : BuilderRef) (start : Nat) (v : Value)
    (hx : w.store.element? e = some x) (hs : x.isSealed = false) (proper : x.Proper) :
    (w.settle b e start v).1.FailsOnly Fault.Single True ∧
      ∃ y, (w.settle b e start v).2.store.element? e = some y ∧ y.Proper := by
  unfold settle
  simp only
  split
  · obtain ⟨w', hg, hw⟩ := giveChildren_open (w := w)
      (directly (((w.session? b).map Session.depth).getD 0) (w.loggedSince b start)) hx hs
    have sound := Element.filled_children_proper proper.tag w.store.nextId
      (directly (((w.session? b).map Session.depth).getD 0) (w.loggedSince b start))
    rw [hg]
    simp only
    split
    · refine ⟨reportAmbiguous_single b e v, _, ?_, sound⟩
      rw [reportAmbiguous_store]
      exact hw
    · exact ⟨trivial, _, hw, sound⟩
  · split
    · rename_i hv
      have hv : v.isNone = false := by simpa using hv
      have hc : w.changeElement e (·.attachText v) = _ :=
        changeElement_open (Element.textContent v) hx hs
      rw [hc]
      refine ⟨trivial, _, element?_setElement _ hx, ?_⟩
      rw [Element.textContent_of_some hv]
      exact Element.filled_text_proper proper.tag hv
    · exact ⟨trivial, x, hx, proper⟩

end Filling

end World

/-- The end of a block fills the element properly, and by itself it does not fail because of
content that the element had. -/
theorem endBlock_fills {b : BuilderRef} {e : ElementRef} {x : Element} {s : State} (start : Nat)
    (ending : Outcome Value) (hx : s.world.store.element? e = some x)
    (hs : x.isSealed = false) (proper : x.Proper) :
    (∀ f, (endBlock b e start ending s).1 = .fault f → ending ≠ .fault f → f.Single) ∧
      ∃ y, (endBlock b e start ending s).2.world.store.element? e = some y ∧ y.Proper := by
  cases ending with
  | value v =>
    obtain ⟨single, y, hy, hp⟩ := World.settle_fills b start v hx hs proper
    refine ⟨fun f hf _ => ?_, y, hy, hp⟩
    have hf : ((fun _ => e) <$> (s.world.settle b e start v).1) = .fault f := hf
    cases ho : (s.world.settle b e start v).1 with
    | value u =>
      rw [ho] at hf
      cases hf
    | exhausted =>
      rw [ho] at hf
      cases hf
    | fault g =>
      rw [ho] at single hf
      cases hf
      exact single
  | fault f =>
    refine ⟨fun g hg own => ?_, x, hx, proper⟩
    cases hg
    exact absurd rfl own
  | exhausted =>
    refine ⟨fun g hg own => ?_, x, hx, proper⟩
    cases hg

theorem endBuild_single {b : BuilderRef} {s : State} {session : Session}
    (hs : s.world.session? b = some session) {ending : Outcome Value} {f : Fault}
    (hf : (endBuild b ending s).1 = .fault f) (own : ending ≠ .fault f) : f.Single := by
  rw [endBuild_ending hs] at hf
  cases ending with
  | value v =>
    unfold Session.conclusion at hf
    cases hr : session.root with
    | none =>
      rw [hr] at hf
      cases hf
      trivial
    | some root =>
      rw [hr] at hf
      cases hf
  | fault g =>
    cases hf
    exact absurd rfl own
  | exhausted => cases hf

theorem Store.describe_single {s : Store} {tag attributes content : Value} {f : Fault}
    (h : s.describe tag attributes content = .error f) : f.Single := by
  have initial {t : String} {given : Option Attributes}
      (h : s.withInitial (.bare t given) content = .error f) : f.Single := by
    unfold withInitial at h
    split at h
    · split at h
      · rcases bind_eq_error h with h | ⟨es, -, h⟩
        · exact (Element.elementsOf_plain h).single
        · rw [Element.withContent_of_open rfl] at h
          cases h
      · rw [Element.attachText, Element.withContent_of_open rfl] at h
        cases h
    · split at h
      · cases h
      · rw [Element.attachText, Element.withContent_of_open rfl] at h
        cases h
  unfold describe at h
  rcases bind_eq_error h with h | ⟨t, -, h⟩
  · exact (Element.tagOf_plain h).single
  · split at h
    · exact initial h
    · exact initial h
    · cases h
      trivial

end TagTree
