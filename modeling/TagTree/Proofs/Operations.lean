import TagTree.Proofs.Endings

/-!
# Operations in alike worlds

Tag calls, blocks and builds of matched builders, with like arguments, end alike in alike
worlds.
-/

namespace TagTree

/-! ### Tables and shapes -/

section Tables

variable {κ κ' ν ν' : Type} {K : κ → κ' → Prop} {V : ν → ν' → Prop} {same : κ → κ → Bool}
  {same' : κ' → κ' → Bool}

theorem Table.insert_rel
    (hs : ∀ k k' l l', K k k' → K l l' → same k l = same' k' l') {k : κ} {k' : κ'} {v : ν}
    {v' : ν'} (hk : K k k') (hv : V v v') {t : List (κ × ν)} {t' : List (κ' × ν')}
    (ht : List.Forall₂ (fun x y => K x.1 y.1 ∧ V x.2 y.2) t t') :
    List.Forall₂ (fun x y => K x.1 y.1 ∧ V x.2 y.2) (Table.insert same k v t)
      (Table.insert same' k' v' t') := by
  induction ht with
  | nil => exact .cons ⟨hk, hv⟩ .nil
  | cons first rest ih =>
    simp only [Table.insert, hs _ _ _ _ first.1 hk]
    split
    · exact .cons ⟨first.1, hv⟩ rest
    · exact .cons first ih

theorem Table.insertAll_rel
    (hs : ∀ k k' l l', K k k' → K l l' → same k l = same' k' l') {es : List (κ × ν)}
    {es' : List (κ' × ν')} (he : List.Forall₂ (fun x y => K x.1 y.1 ∧ V x.2 y.2) es es')
    {t : List (κ × ν)} {t' : List (κ' × ν')}
    (ht : List.Forall₂ (fun x y => K x.1 y.1 ∧ V x.2 y.2) t t') :
    List.Forall₂ (fun x y => K x.1 y.1 ∧ V x.2 y.2) (Table.insertAll same t es)
      (Table.insertAll same' t' es') := by
  induction he generalizing t t' with
  | nil => exact ht
  | cons first rest ih => exact ih (insert_rel hs first.1 first.2 ht)

end Tables

structure Shape.Like (ρ : Matching) (x y : Shape) : Prop where
  mapping : Option.Rel (fun d e => ρ.rel (.dict d) (.dict e)) x.mapping y.mapping
  text : Value.Like ρ x.text y.text
  block : Option.Rel (Callable.Like ρ) x.block y.block

structure TagCall.Like (ρ : Matching) (c d : TagCall) : Prop where
  tag : c.tag = d.tag
  attributes : Option.Rel (Dict.Like ρ) c.attributes d.attributes
  text : Value.Like ρ c.text d.text
  block : Option.Rel (Callable.Like ρ) c.block d.block

section Shapes

variable {ρ : Matching}

theorem Value.Like.none : Value.Like ρ .none .none := .atom (Atom.Like.refl (by simp))

theorem Shape.Like.ofOne {v v' : Value} (hv : Value.Like ρ v v') :
    Shape.Like ρ (Shape.ofOne v) (Shape.ofOne v') := by
  have kept := hv
  cases hv with
  | dict same => exact ⟨.some same, .none, .none⟩
  | view same => exact ⟨.some same, .none, .none⟩
  | block | chain | factory | verbatim | member | handleKind => exact ⟨.none, .none, .some kept⟩
  | _ => exact ⟨.none, kept, .none⟩

theorem Shape.Like.ofTwo {v v' x x' : Value} (hv : Value.Like ρ v v') (hx : Value.Like ρ x x') :
    Reply.Like Eq (Shape.Like ρ) (Shape.ofArguments [v, x]) (Shape.ofArguments [v', x']) := by
  have kept := hv
  have kept' := hx
  cases hv with
  | block | chain | factory | verbatim | member | handleKind => exact .error rfl
  | dict same | view same =>
    cases hx with
    | block | chain | factory | verbatim | member | handleKind =>
      exact .ok ⟨.some same, .none, .some kept'⟩
    | _ => exact .error rfl
  | _ =>
    cases hx with
    | dict same => exact .ok ⟨.some same, kept, .none⟩
    | view same => exact .ok ⟨.some same, kept, .none⟩
    | _ => exact .error rfl

theorem Shape.Like.ofArguments {args args' : List Value} (h : Values.Like ρ args args') :
    Reply.Like Eq (Shape.Like ρ) (Shape.ofArguments args) (Shape.ofArguments args') := by
  cases h with
  | nil => exact .ok ⟨.none, .none, .none⟩
  | cons first rest =>
    cases rest with
    | nil => exact .ok (.ofOne first)
    | cons second rest =>
      cases rest with
      | cons third rest => exact .error rfl
      | nil => exact Shape.Like.ofTwo first second

theorem mergeAttributes_like {m m' : Option Dict} {named named' : List (String × Value)}
    (hm : Option.Rel (Dict.Like ρ) m m') (hn : Named.Like ρ named named') :
    Option.Rel (Dict.Like ρ) (Shape.mergeAttributes m named) (Shape.mergeAttributes m' named') := by
  have attributes : Dict.Like ρ (Shape.namedAttributes named) (Shape.namedAttributes named') := by
    refine List.forall₂_map_left_iff.mpr (List.forall₂_map_right_iff.mpr (hn.imp ?_))
    rintro ⟨n, v⟩ ⟨n', v'⟩ ⟨rfl, hv⟩
    exact ⟨.atom (Atom.Like.refl (by simp)), hv⟩
  have merged {d d' : Dict} (hd : Dict.Like ρ d d') :
      Dict.Like ρ (Table.insertAll Value.sameKey d (Shape.namedAttributes named))
        (Table.insertAll Value.sameKey d' (Shape.namedAttributes named')) :=
    Table.insertAll_rel (K := Value.Like ρ) (V := Value.Like ρ)
      (fun _ _ _ _ => Value.Like.sameKey) attributes hd
  cases hm with
  | some same => exact .some (merged same)
  | none =>
    cases hn with
    | nil => exact .none
    | cons first rest => exact .some (merged .nil)

theorem TagCall.Like.element {c d : TagCall} (h : TagCall.Like ρ c d) :
    Element.Like ρ c.element d.element := by
  unfold TagCall.element
  rw [h.text.isNone]
  split
  · exact ⟨h.tag, h.attributes, .empty, rfl⟩
  · exact ⟨h.tag, h.attributes, .text h.text, rfl⟩

theorem limitReached_congr (depth : Nat) {v v' : Value} (hv : Value.Like ρ v v') :
    limitReached depth v = limitReached depth v' := by
  cases hv with
  | atom same => exact same.congr (fun a => limitReached depth (.atom a)) fun _ _ => rfl
  | _ => rfl

theorem tagOf_congr {v v' : Value} (hv : Value.Like ρ v v') :
    Element.tagOf v = Element.tagOf v' := by
  cases hv with
  | atom same => exact same.congr (fun a => Element.tagOf (.atom a)) fun _ _ => rfl
  | _ => rfl

end Shapes

/-! ### Admission -/

section Admission

variable {ρ : Matching} {w w' : World}

namespace World.Like

theorem written (h : World.Like ρ w w') {v v' : Value} (hv : Value.Like ρ v v') :
    Outcome.Like (Fault.Like ρ) Eq (w.write v) (w'.write v') :=
  .of_below (h.write hv) (write_plain v)

theorem resolveNamed (h : World.Like ρ w w') {c d : Configuration}
    (hc : Configuration.Like ρ c d) {named named' : List (String × Value)}
    (hn : Named.Like ρ named named') :
    Reply.Like Eq (Named.Like ρ) (w.resolveNamed c named) (w'.resolveNamed d named') := by
  have spelled : Reply.Like Eq (Named.Like ρ)
      (named.mapM fun a => do
        let name ← w.resolveName c a.1
        pure (name, a.2))
      (named'.mapM fun a => do
        let name ← w'.resolveName d a.1
        pure (name, a.2)) := by
    induction hn with
    | nil => exact .ok .nil
    | cons first rest ih =>
      rw [List.mapM_cons, List.mapM_cons, first.1]
      refine .bind (R := fun x y => x.1 = y.1 ∧ Value.Like ρ x.2 y.2) ?_ fun x y hxy =>
        ih.bind fun _ _ hs => .ok (.cons hxy hs)
      exact (Reply.Like.of_eq (h.resolveName hc _)).bind fun _ _ he => .ok ⟨he, first.2⟩
  refine spelled.bind fun _ _ hs => .ok ?_
  exact Table.insertAll_rel (K := Eq) (V := Value.Like ρ)
    (fun _ _ _ _ hk hl => by rw [hk, hl]) hs .nil

theorem limitText (h : World.Like ρ w w') {v v' : Value} (hv : Value.Like ρ v v') :
    Outcome.Like (Fault.Like ρ) Eq (w.limitText v) (w'.limitText v') := by
  have written := h.written hv
  cases hv with
  | @atom a b same =>
    rcases same.cases with ⟨rfl, -⟩ | ⟨i, j, rfl, rfl, -⟩
    · cases a with
      | int n => exact .value rfl
      | _ => exact written
    · exact written
  | _ => exact written

theorem checkLimit (h : World.Like ρ w w') {name name' limit limit' : Value}
    (hn : Value.Like ρ name name') (hl : Value.Like ρ limit limit') (depth : Nat)
    (hasBlock : Bool) :
    Outcome.Like (Fault.Like ρ) (fun _ _ => True) (w.checkLimit name limit depth hasBlock)
      (w'.checkLimit name' limit' depth hasBlock) := by
  unfold World.checkLimit
  rw [limitReached_congr depth hl]
  cases hasBlock with
  | false => exact .value trivial
  | true =>
    simp only [if_true]
    cases hr : limitReached depth limit' with
    | error f => exact .fault (.plain (limitReached_plain hr))
    | ok reached =>
      cases reached with
      | false => exact .value trivial
      | true =>
        refine (h.written hn).bind ?_
        rintro text _ rfl
        refine (h.limitText hl).bind ?_
        rintro shown _ rfl
        exact .fault (.nestingLimit hn hl)

theorem admitInSession (h : World.Like ρ w w') {c d : Configuration}
    (hc : Configuration.Like ρ c d) (depth : Nat) {name name' : Value}
    (hn : Value.Like ρ name name') {args args' : List Value} (ha : Values.Like ρ args args')
    {named named' : List (String × Value)} (hnamed : Named.Like ρ named named') :
    Outcome.Like (Fault.Like ρ) (TagCall.Like ρ) (w.admitInSession c depth name args named)
      (w'.admitInSession d depth name' args' named') := by
  unfold World.admitInSession
  refine (Outcome.Like.ofExcept (F := Fault.Like ρ) (h.resolveNamed hc hnamed) ?_).bind ?_
  · rintro f _ hf rfl
    exact .plain (resolveNamed_plain hf)
  · intro spelled spelled' hs
    have shapes := Shape.Like.ofArguments ha
    generalize Shape.ofArguments args = x, Shape.ofArguments args' = y at shapes
    cases shapes with
    | error same =>
      subst same
      refine (h.written hn).bind ?_
      rintro text _ rfl
      exact .fault (.argumentShape hn ha)
    | @ok shape shape' same =>
      simp only
      refine (Outcome.Like.ofExcept (F := Fault.Like ρ) (h.settingOf hc .maxDepth) ?_).bind ?_
      · rintro f _ hf rfl
        exact .plain (settingOf_plain hf)
      · intro limit limit' hl
        rw [isSome_congr same.block]
        refine (h.checkLimit hn hl depth _).bind fun _ _ _ => ?_
        refine (Outcome.Like.of_eq (tagOf_congr hn) fun f => Element.tagOf_plain).bind ?_
        rintro tag _ rfl
        exact .value ⟨rfl, mergeAttributes_like (rel_map (fun _ _ hd => h.entries hd) same.mapping)
          hs, same.text, same.block⟩

theorem admitCall (h : World.Like ρ w w') {b c : BuilderRef} (hb : ρ.Builders b c)
    {name name' : Value} (hn : Value.Like ρ name name') {args args' : List Value}
    (ha : Values.Like ρ args args') {named named' : List (String × Value)}
    (hnamed : Named.Like ρ named named') :
    Outcome.Like (Fault.Like ρ) (TagCall.Like ρ) (w.admitCall b name args named)
      (w'.admitCall c name' args' named') := by
  obtain ⟨x, y, hx, hy, same⟩ := h.builder hb
  have session := same.session
  simp only [World.admitCall, hx, hy]
  generalize x.session = s, y.session = t at session
  cases session with
  | none =>
    refine (h.written hn).bind ?_
    rintro text _ rfl
    exact .fault (.plain trivial)
  | @some s t hs =>
    simp only [hs.depth]
    exact h.admitInSession same.configuration t.depth hn ha hnamed

end World.Like

end Admission

/-! ### Changes of builders -/

section Builders

variable {ρ : Matching} {x y : Builder}

theorem Builder.Like.logElement (h : Builder.Like ρ x y) {e f : ElementRef}
    (he : ρ.Elements e f) : Builder.Like ρ (x.logElement e) (y.logElement f) := by
  obtain ⟨configuration, correlation, id, session, root, remarks, counters⟩ := x
  obtain ⟨configuration', correlation', id', session', root', remarks', counters'⟩ := y
  obtain ⟨hc, hr, hi, hs, hroot, rfl, rfl⟩ := h
  cases hs with
  | none => exact ⟨hc, hr, hi, .none, hroot, rfl, rfl⟩
  | @some s t same =>
    refine ⟨hc, hr, hi, .some ⟨?_, ?_, same.depth⟩, hroot, rfl, rfl⟩
    · show Option.Rel ρ.Elements (s.root <|> some e) (t.root <|> some f)
      have first := same.root
      generalize s.root = r, t.root = r' at first
      cases first with
      | none => exact .some he
      | some hr => exact .some hr
    · exact List.rel_append same.log (.cons ⟨same.depth, he⟩ .nil)

theorem Builder.Like.enterBlock (h : Builder.Like ρ x y) :
    Builder.Like ρ x.enterBlock y.enterBlock := by
  obtain ⟨configuration, correlation, id, session, root, remarks, counters⟩ := x
  obtain ⟨configuration', correlation', id', session', root', remarks', counters'⟩ := y
  obtain ⟨hc, hr, hi, hs, hroot, rfl, rfl⟩ := h
  cases hs with
  | none => exact ⟨hc, hr, hi, .none, hroot, rfl, rfl⟩
  | some same =>
    refine ⟨hc, hr, hi, .some ⟨same.root, same.log, ?_⟩, hroot, rfl, ?_⟩
    · simp only [same.depth]
    · simp only [Builder.enterBlock, same.depth]

theorem Builder.Like.leaveBlock (h : Builder.Like ρ x y) :
    Builder.Like ρ x.leaveBlock y.leaveBlock := by
  obtain ⟨configuration, correlation, id, session, root, remarks, counters⟩ := x
  obtain ⟨configuration', correlation', id', session', root', remarks', counters'⟩ := y
  obtain ⟨hc, hr, hi, hs, hroot, rfl, rfl⟩ := h
  cases hs with
  | none => exact ⟨hc, hr, hi, .none, hroot, rfl, rfl⟩
  | some same =>
    refine ⟨hc, hr, hi, .some ⟨same.root, same.log, ?_⟩, hroot, rfl, rfl⟩
    simp only [same.depth]

theorem Builder.Like.start (h : Builder.Like ρ x y) : Builder.Like ρ x.start y.start :=
  ⟨h.configuration, h.correlation, h.handleId, .some ⟨.none, .nil, rfl⟩, .none, rfl, rfl⟩

theorem Builder.Like.finish (h : Builder.Like ρ x y) {root root' : Option ElementRef}
    (hr : Option.Rel ρ.Elements root root') : Builder.Like ρ (x.finish root) (y.finish root') :=
  ⟨h.configuration, h.correlation, h.handleId, .none, hr, h.remarks, h.counters⟩

theorem Builder.Like.countScalar (h : Builder.Like ρ x y) :
    Builder.Like ρ x.countScalar y.countScalar :=
  ⟨h.configuration, h.correlation, h.handleId, h.session, h.root, h.remarks,
    congrArg Counters.scalarBlock h.counters⟩

theorem Builder.Like.remark (h : Builder.Like ρ x y) (r : Remark) :
    Builder.Like ρ { x with remarks := x.remarks ++ [r] } { y with remarks := y.remarks ++ [r] } :=
  ⟨h.configuration, h.correlation, h.handleId, h.session, h.root,
    congrArg (· ++ [r]) h.remarks, h.counters⟩

end Builders

/-! ### Creating and settling -/

section Settling

variable {ρ : Matching} {lost : Prop} {w w' : World} {b c : BuilderRef} {e f : ElementRef}

theorem directly_like (depth : Nat) {xs ys : List (Nat × ElementRef)} (h : Log.Like ρ xs ys) :
    List.Forall₂ ρ.Elements (World.directly depth xs) (World.directly depth ys) := by
  induction h with
  | nil => exact .nil
  | cons first rest ih =>
    simp only [World.directly, List.filter_cons, first.1]
    split
    · exact .cons first.2 ih
    · exact ih

theorem any_congr_forall₂ {α β : Type} {r : α → β → Prop} {p : α → Bool} {q : β → Bool}
    (h : ∀ a b, r a b → p a = q b) {xs : List α} {ys : List β} (hr : List.Forall₂ r xs ys) :
    xs.any p = ys.any q := by
  induction hr with
  | nil => rfl
  | cons first rest ih => rw [List.any_cons, List.any_cons, h _ _ first, ih]

theorem all_congr_forall₂ {α β : Type} {r : α → β → Prop} {p : α → Bool} {q : β → Bool}
    (h : ∀ a b, r a b → p a = q b) {xs : List α} {ys : List β} (hr : List.Forall₂ r xs ys) :
    xs.all p = ys.all q := by
  induction hr with
  | nil => rfl
  | cons first rest ih => rw [List.all_cons, List.all_cons, h _ _ first, ih]

/-- A change of elements that treats like elements alike. -/
def ChangesAlike (ρ : Matching) (f g : Element → Except Fault Element) : Prop :=
  ∀ x y, Element.Like ρ x y → Reply.Like (Fault.Like ρ) (Element.Like ρ) (f x) (g y)

theorem withContent_alike {c d : Content} (h : Content.Like ρ c d) :
    ChangesAlike ρ (·.withContent c) (·.withContent d) := by
  intro x y hxy
  simp only [Element.withContent, hxy.isSealed, hxy.tag]
  split
  · exact .error (.alreadySealed _)
  · exact .ok ⟨rfl, hxy.attributes, h, rfl⟩

theorem attachText_alike {v v' : Value} (hv : Value.Like ρ v v') :
    ChangesAlike ρ (·.attachText v) (·.attachText v') := by
  refine withContent_alike ?_
  rcases World.textContent_cases v with ⟨rfl, -⟩ | ⟨hn, ht⟩
  · cases hv with
    | atom same =>
      rcases same.cases with ⟨rfl, -⟩ | ⟨i, j, hi, -⟩
      · exact .empty
      · cases hi
  · rcases World.textContent_cases v' with ⟨rfl, -⟩ | ⟨-, ht'⟩
    · rw [hv.isNone] at hn
      cases hn
    · rw [ht, ht']
      exact .text hv

namespace World.Like

theorem create (h : World.Like ρ w w') (hb : ρ.Builders b c) {k l : TagCall}
    (hk : TagCall.Like ρ k l) :
    ∃ σ, ρ ≤ σ ∧ σ.Elements (w.create b k).1 (w'.create c l).1 ∧
      World.Like σ (w.create b k).2 (w'.create c l).2 := by
  obtain ⟨σ, le, he, hw⟩ := h.pushElement hk.element
  refine ⟨σ, le, he, World.Like.notice ?_ _ _ _ _⟩
  exact hw.updateBuilder (Matching.rel_of_le le hb) fun x y hxy => hxy.logElement he

theorem changeElement (h : World.Like ρ w w') (he : ρ.Elements e f)
    {g g' : Element → Except Fault Element} (hg : ChangesAlike ρ g g') :
    EndsAlike World.Like lost (fun _ _ _ => True) ρ (w.changeElement e g)
      (w'.changeElement f g') := by
  obtain ⟨x, y, hx, hy, same⟩ := h.element he
  have changed := hg x y same
  simp only [World.changeElement, hx, hy]
  generalize g x = r, g' y = r' at changed
  cases changed with
  | ok same => exact .value le_rfl (h.setElement he same) trivial
  | error same => exact .fault le_rfl h same

theorem giveChildren (h : World.Like ρ w w') (he : ρ.Elements e f) {es fs : List ElementRef}
    (hes : List.Forall₂ ρ.Elements es fs) :
    EndsAlike World.Like lost (fun _ _ _ => True) ρ (w.giveChildren e es)
      (w'.giveChildren f fs) := by
  obtain ⟨σ, le, hid, hw⟩ := h.newId
  refine EndsAlike.weaken le ?_
  refine hw.changeElement (Matching.rel_of_le le he) (withContent_alike ?_)
  exact .children hid (hes.imp fun _ _ => Matching.rel_of_le le)

theorem isLogged (h : World.Like ρ w w') {xs ys : List (Nat × ElementRef)}
    (hxs : Log.Like ρ xs ys) {v v' : Value} (hv : Value.Like ρ v v') :
    w.isLogged xs v = w'.isLogged ys v' := by
  have logged : ∀ v v', Value.Like ρ v v' →
      (v.element?.any fun e => xs.any fun x => x.2 == e) =
        v'.element?.any fun e => ys.any fun x => x.2 == e := by
    intro v v' hv
    have element := hv.element?
    generalize v.element? = a, v'.element? = a' at element
    cases element with
    | none => rfl
    | some he =>
      exact any_congr_forall₂ (fun x y hxy =>
        beq_congr (by simpa using Matching.rel_iff hxy.2 he)) hxs
  have items := h.sequence? hv
  unfold World.isLogged
  generalize w.store.sequence? v = a, w'.store.sequence? v' = a' at items
  cases items with
  | none => exact logged v v' hv
  | some same => simp only [isEmpty_congr same, all_congr_forall₂ logged same]

theorem wantsRemarks (h : World.Like ρ w w') {x y : Builder} (hxy : Builder.Like ρ x y) :
    w.wantsRemarks x = w'.wantsRemarks y := by
  have setting := h.settingOf hxy.configuration .diagnostics
  unfold World.wantsRemarks
  generalize w.settingOf x.configuration .diagnostics = a,
    w'.settingOf y.configuration .diagnostics = a' at setting
  cases setting with
  | ok hv => exact h.truthy hv
  | error _ => rfl

theorem remark (h : World.Like ρ w w') (hb : ρ.Builders b c) (r : Remark) :
    World.Like ρ (w.remark b r) (w'.remark c r) := by
  obtain ⟨x, y, hx, hy, same⟩ := h.builder hb
  have building : x.isBuilding = y.isBuilding := isSome_congr same.session
  simp only [World.remark, hx, hy, h.wantsRemarks same, building]
  split
  · exact h.updateBuilder hb fun _ _ hxy => hxy.remark r
  · exact h

theorem policyOf (h : World.Like ρ w w') (hb : ρ.Builders b c) :
    w.policyOf b = w'.policyOf c := by
  obtain ⟨x, y, hx, hy, same⟩ := h.builder hb
  have setting := h.settingOf same.configuration .policy
  simp only [World.policyOf, hx, hy]
  generalize w.settingOf x.configuration .policy = a,
    w'.settingOf y.configuration .policy = a' at setting
  cases setting with
  | error same => rw [same]
  | ok hv =>
    cases hv with
    | atom same => rcases same.cases with ⟨rfl, -⟩ | ⟨i, j, rfl, rfl, -⟩ <;> rfl
    | _ => rfl

theorem reportAmbiguous (h : World.Like ρ w w') (hb : ρ.Builders b c) (he : ρ.Elements e f)
    {v v' : Value} (hv : Value.Like ρ v v') :
    EndsAlike World.Like lost (fun _ _ _ => True) ρ (w.reportAmbiguous b e v)
      (w'.reportAmbiguous c f v') := by
  unfold World.reportAmbiguous
  simp only [h.policyOf hb, h.tagOf he, h.shown hv]
  cases hp : w'.policyOf c with
  | error g => exact .fault le_rfl h (.plain (policyOf_plain hp))
  | ok p =>
    cases p with
    | strict => exact .fault le_rfl h (.ambiguousBlock hv)
    | diagnostic => exact .value le_rfl ((h.notice _ _ _ _).remark hb _) trivial
    | silent => exact .value le_rfl h trivial

theorem loggedSince (h : World.Like ρ w w') (hb : ρ.Builders b c) (start : Nat) :
    Log.Like ρ (w.loggedSince b start) (w'.loggedSince c start) := by
  have session := h.session? hb
  unfold World.loggedSince
  generalize w.session? b = s, w'.session? c = t at session
  cases session with
  | none => exact .nil
  | some same => exact List.forall₂_drop start same.log

theorem depth_eq (h : World.Like ρ w w') (hb : ρ.Builders b c) :
    ((w.session? b).map Session.depth).getD 0 = ((w'.session? c).map Session.depth).getD 0 :=
  congrArg (·.getD 0) (map_congr_rel (fun _ _ hs => hs.depth) (h.session? hb))

theorem logLength (h : World.Like ρ w w') (hb : ρ.Builders b c) :
    w.logLength b = w'.logLength c :=
  congrArg (·.getD 0) (map_congr_rel (fun _ _ hs => hs.log.length_eq) (h.session? hb))

theorem settle (h : World.Like ρ w w') (hb : ρ.Builders b c) (he : ρ.Elements e f)
    (start : Nat) {v v' : Value} (hv : Value.Like ρ v v') :
    EndsAlike World.Like lost (fun _ _ _ => True) ρ (w.settle b e start v)
      (w'.settle c f start v') := by
  have added := h.loggedSince hb start
  unfold World.settle
  simp only [isEmpty_congr added, h.depth_eq hb, hv.isNone]
  split
  · have given : EndsAlike World.Like lost (fun _ _ _ => True) ρ (w.giveChildren e _)
        (w'.giveChildren f _) := h.giveChildren he
      (directly_like (((w'.session? c).map Session.depth).getD 0) added)
    generalize w.giveChildren e _ = r, w'.giveChildren f _ = r' at given
    cases given with
    | spent => exact .spent
    | lost hl => exact .lost hl
    | fault le state same => exact .fault le state same
    | @value σ _ _ s t le state same =>
      have hv' := hv.mono le
      have logged := state.isLogged (added.imp fun _ _ hx => ⟨hx.1, Matching.rel_of_le le hx.2⟩) hv'
      simp only [logged]
      split
      · exact EndsAlike.weaken le
          (state.reportAmbiguous (Matching.rel_of_le le hb) (Matching.rel_of_le le he) hv')
      · exact .value le state trivial
  · split
    · have attached : EndsAlike World.Like lost (fun _ _ _ => True) ρ
          (w.changeElement e (·.attachText v)) (w'.changeElement f (·.attachText v')) :=
        h.changeElement he (attachText_alike hv)
      generalize w.changeElement e _ = r, w'.changeElement f _ = r' at attached
      cases attached with
      | spent => exact .spent
      | lost hl => exact .lost hl
      | fault le state same => exact .fault le state same
      | value le state same =>
        exact .value le (state.updateBuilder (Matching.rel_of_le le hb)
          fun _ _ hxy => hxy.countScalar) trivial
    · exact .value le_rfl h trivial

/-! ### Builds -/

theorem admitBuild (h : World.Like ρ w w') (hb : ρ.Builders b c) {v v' : Value}
    (hv : Value.Like ρ v v') :
    Outcome.Like (Fault.Like ρ) (Callable.Like ρ) (w.admitBuild b v) (w'.admitBuild c v') := by
  obtain ⟨x, y, hx, hy, same⟩ := h.builder hb
  have building : x.isBuilding = y.isBuilding := isSome_congr same.session
  simp only [World.admitBuild, hx, hy, building]
  split
  · exact .fault (.plain trivial)
  · have kept := hv
    cases hv with
    | block | chain | factory | verbatim | member | handleKind => exact .value kept
    | _ => exact .fault (.plain trivial)

theorem startBuild (h : World.Like ρ w w') (hb : ρ.Builders b c) :
    World.Like ρ (w.startBuild b) (w'.startBuild c) :=
  (h.updateBuilder hb fun _ _ hxy => hxy.start).notice _ _ _ _

theorem failBuild (h : World.Like ρ w w') (hb : ρ.Builders b c) (g g' : Fault) :
    World.Like ρ (w.failBuild b g) (w'.failBuild c g') := by
  have noted (P : Object → Prop) (u : World) (d : BuilderRef) (g : Fault) :
      u.Spares P (if g.isException then
        u.notice d (.failed (u.countersOf d).elementsCreated g.kind) else u) := by
    split
    · exact .notice u d _
    · exact .refl u
  have size (u : World) (d : BuilderRef) (g : Fault) : (if g.isException then
      u.notice d (.failed (u.countersOf d).elementsCreated g.kind) else u).store = u.store := by
    split <;> rfl
  refine World.Like.updateBuilder (h.spared (noted _ w b g) (noted _ w' c g') ?_) hb
    fun _ _ hxy => hxy.finish .none
  rw [size, size]
  exact h.size

theorem orphansOf_like {s t : Session} (h : Session.Like ρ s t) :
    List.Forall₂ ρ.Elements (World.orphansOf s) (World.orphansOf t) := by
  refine List.rel_filter ?_ (directly_like 0 h.log)
  intro e f he
  have root := h.root
  generalize s.root = r, t.root = r' at root
  cases root with
  | none => simp
  | some hr => simpa using not_congr (Matching.rel_iff hr he)

theorem reportOrphans (h : World.Like ρ w w') (hb : ρ.Builders b c) {s t : Session}
    (hs : Session.Like ρ s t) (he : ρ.Elements e f) :
    World.Like ρ (w.reportOrphans b s e) (w'.reportOrphans c t f) := by
  have tags := map_congr_forall₂ (fun _ _ hd => h.tagOf hd) (orphansOf_like hs)
  unfold World.reportOrphans
  simp only [tags, h.tagOf he]
  split
  · exact h
  · exact (h.notice _ _ _ _).remark hb _

theorem completeBuild (h : World.Like ρ w w') (hb : ρ.Builders b c) {s t : Session}
    (hs : Session.Like ρ s t) (he : ρ.Elements e f) :
    World.Like ρ (w.completeBuild b s e) (w'.completeBuild c t f) :=
  ((h.reportOrphans hb hs he).updateBuilder hb fun _ _ hxy => hxy.finish (.some he)).notice _ _ _ _

theorem concludeBuild (h : World.Like ρ w w') (hb : ρ.Builders b c) :
    EndsAlike World.Like lost Matching.Elements ρ (w.concludeBuild b) (w'.concludeBuild c) := by
  have session := h.session? hb
  unfold World.concludeBuild
  generalize w.session? b = s, w'.session? c = t at session
  cases session with
  | none => exact .spent
  | @some s t same =>
    have root := same.root
    simp only
    generalize s.root = r, t.root = r' at root
    cases root with
    | none => exact .fault le_rfl (h.failBuild hb _ _) (.plain trivial)
    | some he => exact .value le_rfl (h.completeBuild hb same he) he

end World.Like

end Settling

end TagTree
