import TagTree.Proofs.Identity
import TagTree.Proofs.Making
import TagTree.Proofs.Performed

/-!
# Trees as plain tables

The plain table of a tree is a dictionary with its tag, its attributes if there are any, and its
text or a list of the tables of its children. The names of these entries tell what a value in them
stands for, so identical tables come from trees that are alike.
-/

namespace TagTree

namespace Store

/-! ### Objects that are found -/

section

variable {s s' : Store}

theorem entries_of_getElem? {d : DictRef} {table : Dict} (h : s.dicts[d.index]? = some table) :
    s.entries d = table := by rw [entries, h, Option.getD_some]

theorem items_of_getElem? {l : ListRef} {items : List Value}
    (h : s.lists[l.index]? = some items) : s.items l = items := by
  rw [Store.items, h, Option.getD_some]

theorem treeWithin_congr (h : s'.elements = s.elements) (n : Nat) (e : ElementRef) :
    s'.treeWithin n e = s.treeWithin n e := by
  induction n generalizing e with
  | zero => rfl
  | succ n ih =>
    have same : s'.treeWithin n = s.treeWithin n := funext ih
    unfold treeWithin element?
    rw [h, same]

theorem tree?_congr (h : s'.elements = s.elements) (e : ElementRef) : s'.tree? e = s.tree? e := by
  rw [tree?, tree?, h, treeWithin_congr h]

end

/-! ### Tables -/

/-- The entry for the attributes of a node, if it has any. -/
inductive AttributesTabled (s : Store) (n : Node) : Dict → Prop
  | none (bare : n.entries = []) : AttributesTabled s n []
  | some {d : DictRef} (any : n.entries ≠ []) (table : s.dicts[d.index]? = some n.entries) :
      AttributesTabled s n [(.text "attributes", .dict d)]

/-- A dictionary is the table of a tree. -/
inductive Tabled (s : Store) : ElementTree → Value → Prop
  | closed {n : Node} {d : DictRef} {attributes : Dict} (head : s.AttributesTabled n attributes)
      (table : s.dicts[d.index]? = some ((.text "tag", .text n.tag) :: (attributes ++ []))) :
      Tabled s (.closed n) (.dict d)
  | text {n : Node} {v : Value} {d : DictRef} {attributes : Dict}
      (head : s.AttributesTabled n attributes)
      (table : s.dicts[d.index]? =
        some ((.text "tag", .text n.tag) :: (attributes ++ [(.text "text", v)]))) :
      Tabled s (.text n v) (.dict d)
  | branch {n : Node} {ts : List ElementTree} {l : ListRef} {vs : List Value} {d : DictRef}
      {attributes : Dict} (head : s.AttributesTabled n attributes)
      (table : s.dicts[d.index]? =
        some ((.text "tag", .text n.tag) :: (attributes ++ [(.text "children", .list l)])))
      (items : s.lists[l.index]? = some vs) (children : List.Forall₂ (Tabled s) ts vs) :
      Tabled s (.branch n ts) (.dict d)

section

variable {s s' : Store} {n m : Node} {t t' : ElementTree} {v v' : Value} {as bs cs ds : Dict}

theorem AttributesTabled.extend (h : s.AttributesTabled n as) (ext : s.Extends s') :
    s'.AttributesTabled n as := by
  cases h with
  | none bare => exact .none bare
  | some any table => exact .some any (ext.dict table)

theorem Tabled.extend (h : s.Tabled t v) (ext : s.Extends s') : s'.Tabled t v := by
  induction t using Tree.induct generalizing v with
  | closed n =>
    cases h with
    | closed head table => exact .closed (head.extend ext) (ext.dict table)
  | text n c =>
    cases h with
    | text head table => exact .text (head.extend ext) (ext.dict table)
  | branch n ts ih =>
    cases h with
    | branch head table items children =>
      refine .branch (head.extend ext) (ext.dict table) (ext.list items) ?_
      exact forall₂_imp_of_mem (fun t ht v h => ih t ht h) children

theorem Tabled.dict (h : s.Tabled t v) : ∃ d, v = .dict d := by
  cases h with
  | closed | text | branch => exact ⟨_, rfl⟩

/-! ### Making tables -/

theorem storeFields_append (xs ys : List (String × Plain)) :
    Plain.storeFields (xs ++ ys) = (do
      let vs ← Plain.storeFields xs
      let us ← Plain.storeFields ys
      pure (vs ++ us)) := by
  induction xs with
  | nil => simp [Plain.storeFields]
  | cons x xs ih =>
    obtain ⟨name, p⟩ := x
    simp [Plain.storeFields, ih]

theorem storeFields_attributes (n : Node) (s : Store) : ∃ as s',
    Plain.storeFields (ElementTree.plainAttributes n) s = (.value as, s') ∧ s.Extends s' ∧
      s'.AttributesTabled n as := by
  unfold ElementTree.plainAttributes
  by_cases bare : n.entries = []
  · rw [bare, List.isEmpty_nil, if_pos rfl]
    exact ⟨[], s, rfl, .refl s, .none bare⟩
  · rw [if_neg (by simpa using bare)]
    refine ⟨_, _, rfl, s.extends_newDict n.entries, .some bare ?_⟩
    simp

/-- The entries of a table are stored one after another, and then the table. -/
theorem store_record {n : Node} {s s₁ s₂ : Store} {as cs : Dict}
    (fields : List (String × Plain))
    (attributes : Plain.storeFields (ElementTree.plainAttributes n) s = (.value as, s₁))
    (content : Plain.storeFields fields s₁ = (.value cs, s₂)) :
    Plain.store (.record (("tag", .value (.text n.tag)) ::
      ElementTree.plainAttributes n ++ fields)) s = (.value (.dict ⟨s₂.dicts.size⟩),
        { s₂ with dicts := s₂.dicts.push ((.text "tag", .text n.tag) :: (as ++ cs)) }) := by
  have stored : Plain.storeFields (("tag", .value (.text n.tag)) ::
      (ElementTree.plainAttributes n ++ fields)) s =
        (.value ((.text "tag", .text n.tag) :: (as ++ cs)), s₂) := by
    simp only [Plain.storeFields, Plain.store, storeFields_append, Proc.bind_apply,
      Proc.pure_apply, attributes, content]
  rw [List.cons_append, Plain.store, Proc.bind_apply, stored]
  rfl

theorem storeAll_plainAll {ts : List ElementTree}
    (h : ∀ t ∈ ts, ∀ s, ∃ v s', Plain.store (ElementTree.plain t) s = (.value v, s') ∧
      s.Extends s' ∧ s'.Tabled t v) (s : Store) : ∃ vs s',
    Plain.storeAll (ElementTree.plainAll ts) s = (.value vs, s') ∧ s.Extends s' ∧
      List.Forall₂ s'.Tabled ts vs := by
  induction ts generalizing s with
  | nil => exact ⟨[], s, rfl, .refl s, .nil⟩
  | cons t ts ih =>
    obtain ⟨v, s₁, first, ext₁, tabled⟩ := h t List.mem_cons_self s
    obtain ⟨vs, s₂, rest, ext₂, others⟩ := ih (fun x hx => h x (List.mem_cons_of_mem _ hx)) s₁
    refine ⟨v :: vs, s₂, ?_, ext₁.trans ext₂, .cons (tabled.extend ext₂) others⟩
    simp only [ElementTree.plainAll, Plain.storeAll, Proc.bind_apply, first, rest,
      Proc.pure_apply]

/-- Every tree is stored as its table. -/
theorem store_plain (t : ElementTree) (s : Store) : ∃ v s',
    Plain.store (ElementTree.plain t) s = (.value v, s') ∧ s.Extends s' ∧ s'.Tabled t v := by
  induction t using Tree.induct generalizing s with
  | closed n =>
    obtain ⟨as, s₁, attributes, ext, head⟩ := storeFields_attributes n s
    have stored := store_record [] attributes rfl
    rw [List.append_nil] at stored
    refine ⟨_, _, stored, ext.trans (s₁.extends_newDict _), ?_⟩
    exact .closed (head.extend (s₁.extends_newDict _)) (by simp)
  | text n v =>
    obtain ⟨as, s₁, attributes, ext, head⟩ := storeFields_attributes n s
    have stored := store_record [("text", .value v)] attributes rfl
    refine ⟨_, _, stored, ext.trans (s₁.extends_newDict _), ?_⟩
    exact .text (head.extend (s₁.extends_newDict _)) (by simp)
  | branch n ts ih =>
    obtain ⟨as, s₁, attributes, ext₁, head⟩ := storeFields_attributes n s
    obtain ⟨vs, s₂, inside, ext₂, children⟩ := storeAll_plainAll ih s₁
    let s₃ : Store := { s₂ with lists := s₂.lists.push vs }
    have content : Plain.storeFields [("children", .list (ElementTree.plainAll ts))] s₁ =
        (.value [(.text "children", .list ⟨s₂.lists.size⟩)], s₃) := by
      simp only [Plain.storeFields, Plain.store, Proc.bind_apply, inside, Proc.pure_apply]
      rfl
    have stored := store_record _ attributes content
    have ext₃ : s₂.Extends s₃ := s₂.extends_newList vs
    have ext₄ := s₃.extends_newDict
      ((.text "tag", .text n.tag) :: (as ++ [(.text "children", .list ⟨s₂.lists.size⟩)]))
    have ext : s₁.Extends _ := ext₂.trans (ext₃.trans ext₄)
    have listed : s₃.lists[s₂.lists.size]? = some vs := by simp [s₃]
    refine ⟨_, _, stored, ext₁.trans ext, ?_⟩
    refine .branch (head.extend ext) (by simp) (ext₄.list listed) ?_
    exact children.imp fun _ _ h => h.extend (ext₃.trans ext₄)

/-! ### Identical tables -/

/-- Entries with identical keys and identical values. -/
def SameEntries (s : Store) (as bs : Dict) : Prop :=
  List.Forall₂ (fun x y => s.Identical x.1 y.1 ∧ s.Identical x.2 y.2) as bs

theorem identical_dict {d e : DictRef} (hd : s.dicts[d.index]? = some as)
    (he : s.dicts[e.index]? = some bs) :
    s.Identical (.dict d) (.dict e) ↔ s.SameEntries as bs := by
  rw [identical_dict_iff, entries_of_getElem? hd, entries_of_getElem? he]
  rfl

theorem sameEntries_nil : s.SameEntries [] bs ↔ bs = [] := List.forall₂_nil_left_iff

theorem sameEntries_cons {x y : Value × Value} : s.SameEntries (x :: as) (y :: bs) ↔
    (s.Identical x.1 y.1 ∧ s.Identical x.2 y.2) ∧ s.SameEntries as bs := List.forall₂_cons

theorem sameEntries_nil_right : s.SameEntries as [] ↔ as = [] := List.forall₂_nil_right_iff

theorem sameEntries_one {a b : String} {x y : Value} :
    s.SameEntries [(.text a, x)] [(.text b, y)] ↔ a = b ∧ s.Identical x y := by
  rw [sameEntries_cons, identical_text_iff, sameEntries_nil]
  exact and_iff_left rfl

theorem AttributesTabled.same_iff (hn : s.AttributesTabled n as) (hm : s.AttributesTabled m bs) :
    s.SameEntries as bs ↔ s.SameEntries n.entries m.entries := by
  cases hn with
  | none bare =>
    cases hm with
    | none bare' => rw [bare, bare']
    | some any table =>
      rw [bare, sameEntries_nil, sameEntries_nil]
      exact iff_of_false (List.cons_ne_nil _ _) any
  | some any table =>
    cases hm with
    | none bare' =>
      rw [bare', sameEntries_nil_right, sameEntries_nil_right]
      exact iff_of_false (List.cons_ne_nil _ _) any
    | some any' table' =>
      rw [sameEntries_cons, identical_dict table table']
      exact ⟨fun h => h.1.2, fun h => ⟨⟨.refl _ _, h⟩, .nil⟩⟩

/-- Entries under names other than that of the attributes. -/
def Unattributed (cs : Dict) : Prop := ∀ c ∈ cs, ∃ k, c.1 = .text k ∧ k ≠ "attributes"

theorem unattributed_nil : Unattributed [] := nofun

theorem unattributed_one {k : String} (hk : k ≠ "attributes") (u : Value) :
    Unattributed [(.text k, u)] := by
  simpa [Unattributed] using hk

theorem Unattributed.not_same (hcs : Unattributed cs) (u : Value) :
    ¬ s.SameEntries cs ((.text "attributes", u) :: ds) := by
  intro h
  cases cs with
  | nil => cases sameEntries_nil.mp h
  | cons c cs =>
    obtain ⟨k, hk, hne⟩ := hcs c List.mem_cons_self
    have key := (sameEntries_cons.mp h).1.1
    rw [hk, identical_text_iff] at key
    exact hne key

theorem Unattributed.not_same_left (hds : Unattributed ds) (u : Value) :
    ¬ s.SameEntries ((.text "attributes", u) :: cs) ds := by
  intro h
  cases ds with
  | nil => cases sameEntries_nil_right.mp h
  | cons c ds =>
    obtain ⟨k, hk, hne⟩ := hds c List.mem_cons_self
    have key := (sameEntries_cons.mp h).1.1
    rw [hk, identical_text_iff] at key
    exact hne key.symm

/-- Entries after those for attributes stand for themselves. -/
theorem AttributesTabled.append_iff (hn : s.AttributesTabled n as)
    (hm : s.AttributesTabled m bs) (hcs : Unattributed cs) (hds : Unattributed ds) :
    s.SameEntries (as ++ cs) (bs ++ ds) ↔ s.SameEntries as bs ∧ s.SameEntries cs ds := by
  -- an entry for attributes on one side only would have a name that is identical to no other
  cases hn with
  | none bare =>
    cases hm with
    | none bare' => simp [sameEntries_nil]
    | some any table =>
      exact iff_of_false (hcs.not_same _) fun h => List.cons_ne_nil _ _ (sameEntries_nil.mp h.1)
  | some any table =>
    cases hm with
    | none bare' =>
      exact iff_of_false (hds.not_same_left _) fun h =>
        List.cons_ne_nil _ _ (sameEntries_nil_right.mp h.1)
    | some any' table' =>
      rw [List.cons_append, List.cons_append, List.nil_append, List.nil_append, sameEntries_cons,
        sameEntries_cons]
      simp [sameEntries_nil]

/-- The tag, the attributes and what follows them are told apart. -/
theorem head_iff {d e : DictRef} (hn : s.AttributesTabled n as) (hm : s.AttributesTabled m bs)
    (hcs : Unattributed cs) (hds : Unattributed ds)
    (hd : s.dicts[d.index]? = some ((.text "tag", .text n.tag) :: (as ++ cs)))
    (he : s.dicts[e.index]? = some ((.text "tag", .text m.tag) :: (bs ++ ds))) :
    s.Identical (.dict d) (.dict e) ↔ Node.Related s.Identical n m ∧ s.SameEntries cs ds := by
  rw [identical_dict hd he, sameEntries_cons, hn.append_iff hm hcs hds, hn.same_iff hm,
    identical_text_iff, identical_text_iff, and_iff_right rfl]
  constructor
  · rintro ⟨tag, attributes, content⟩
    exact ⟨⟨tag, attributes⟩, content⟩
  · rintro ⟨⟨tag, attributes⟩, content⟩
    exact ⟨tag, attributes, content⟩

/-- Lists are related where each pair of theirs stands for a related pair. -/
theorem forall₂_iff_of_tabled {R : Value → Value → Prop}
    {Q : ElementTree → ElementTree → Prop} {ts ts' : List ElementTree} {vs vs' : List Value}
    (hts : List.Forall₂ s.Tabled ts vs) (hts' : List.Forall₂ s.Tabled ts' vs')
    (h : ∀ t ∈ ts, ∀ t' v v', s.Tabled t v → s.Tabled t' v' → (R v v' ↔ Q t t')) :
    List.Forall₂ R vs vs' ↔ List.Forall₂ Q ts ts' := by
  induction hts generalizing ts' vs' with
  | nil =>
    cases hts' with
    | nil => exact iff_of_true .nil .nil
    | cons first rest => simp
  | cons first rest ih =>
    cases hts' with
    | nil => simp
    | cons first' rest' =>
      rw [List.forall₂_cons, List.forall₂_cons, h _ List.mem_cons_self _ _ _ first first',
        ih rest' fun t ht => h t (List.mem_cons_of_mem _ ht)]

/-- Tables are identical exactly if the trees are alike: in their tags, their attributes, their
kinds of content, their texts and their children. -/
theorem Tabled.identical_iff (h : s.Tabled t v) (h' : s.Tabled t' v') :
    s.Identical v v' ↔ Tree.Like (Node.Related s.Identical) s.Identical t t' := by
  have none := unattributed_nil
  have text (u : Value) : Unattributed [(.text "text", u)] := unattributed_one (by decide) u
  have list (u : Value) : Unattributed [(.text "children", u)] := unattributed_one (by decide) u
  induction t using Tree.induct generalizing t' v v' with
  | closed n =>
    cases h with | closed head table =>
    cases h' with
    | closed head' table' =>
      rw [head_iff head head' none none table table', sameEntries_nil, and_iff_left rfl]
      exact ⟨.closed, fun l => l.head⟩
    | text head' table' =>
      rw [head_iff head head' none (text _) table table', sameEntries_nil]
      exact iff_of_false (fun h => List.cons_ne_nil _ _ h.2) nofun
    | branch head' table' items' children' =>
      rw [head_iff head head' none (list _) table table', sameEntries_nil]
      exact iff_of_false (fun h => List.cons_ne_nil _ _ h.2) nofun
  | text n u =>
    cases h with | text head table =>
    cases h' with
    | closed head' table' =>
      rw [head_iff head head' (text _) none table table', sameEntries_nil_right]
      exact iff_of_false (fun h => List.cons_ne_nil _ _ h.2) nofun
    | text head' table' =>
      rw [head_iff head head' (text _) (text _) table table', sameEntries_one,
        and_iff_right rfl]
      exact ⟨fun h => .text h.1 h.2, fun | .text head content => ⟨head, content⟩⟩
    | branch head' table' items' children' =>
      rw [head_iff head head' (text _) (list _) table table', sameEntries_one]
      exact iff_of_false (fun h => absurd h.2.1 (by decide)) nofun
  | branch n ts ih =>
    cases h with | branch head table items children =>
    cases h' with
    | closed head' table' =>
      rw [head_iff head head' (list _) none table table', sameEntries_nil_right]
      exact iff_of_false (fun h => List.cons_ne_nil _ _ h.2) nofun
    | text head' table' =>
      rw [head_iff head head' (list _) (text _) table table', sameEntries_one]
      exact iff_of_false (fun h => absurd h.2.1 (by decide)) nofun
    | branch head' table' items' children' =>
      have inside := forall₂_iff_of_tabled children children' fun t ht t' v v' => ih t ht
      rw [head_iff head head' (list _) (list _) table table', sameEntries_one,
        and_iff_right rfl, identical_list_iff, items_of_getElem? items,
        items_of_getElem? items', inside]
      exact ⟨fun h => .branch h.1 h.2, fun | .branch head children => ⟨head, children⟩⟩

end

end Store

/-! ### Renderings of like trees -/

namespace World

variable {w : World} {e₁ e₂ : ElementRef} {t₁ t₂ : ElementTree}

/-- Trees with equal tags and with keys, values and texts that are written alike are rendered
alike, or fail alike. -/
theorem render_congr (found₁ : w.store.tree? e₁ = some t₁) (found₂ : w.store.tree? e₂ = some t₂)
    (alike : Tree.Like (Node.Related fun v v' => w.write v = w.write v')
      (fun v v' => w.write v = w.write v') t₁ t₂) (width : Value) (depth : Int) :
    w.render e₁ width depth = w.render e₂ width depth := by
  have back : Tree.Like (Node.Related fun v v' => w.write v = w.write v')
      (fun v v' => w.write v = w.write v') t₂ t₁ := by
    refine alike.flip.imp (fun n m h => ⟨h.tag.symm, ?_⟩) fun v v' h => h.symm
    exact (h.attributes.imp fun x y hxy => ⟨hxy.1.symm, hxy.2.symm⟩).flip
  have below (v v' : Value) (h : w.write v = w.write v') : (w.write v).Below (w.write v') := .inr h
  have same : ElementTree.markup w.write (w.indentable width) depth t₁ =
      ElementTree.markup w.write (w.indentable width) depth t₂ :=
    (ElementTree.markup_below below _ depth alike).antisymm
      (ElementTree.markup_below below _ depth back)
  rw [render, render, renderWith, renderWith, found₁, found₂, Outcome.ofOption, Outcome.ofOption,
    Outcome.value_bind, Outcome.value_bind, same]

/-- Identical values of trees that unwind are written alike. -/
theorem written_alike (alike : Tree.Like (Node.Related w.store.Identical) w.store.Identical t₁ t₂)
    (unwinds₁ : t₁.Values (w.store.Unwinds [])) (unwinds₂ : t₂.Values (w.store.Unwinds [])) :
    Tree.Like (Node.Related fun v v' => w.write v = w.write v')
      (fun v v' => w.write v = w.write v') t₁ t₂ := by
  have narrowed := (alike.flip.imp_of_every
    (K := fun m n => Node.Related w.store.Identical n m ∧
      ∀ a ∈ m.entries, w.store.Unwinds [] a.1 ∧ w.store.Unwinds [] a.2)
    (D := fun v' v => w.store.Identical v v' ∧ w.store.Unwinds [] v')
    (Tree.Every.imp (fun m hm n h => ⟨h, hm⟩) (fun v' hv' v h => ⟨h, hv'⟩) unwinds₂)).flip
  refine narrowed.imp_of_every (Tree.Every.imp (fun n hn m h => ⟨h.1.tag, ?_⟩) ?_ unwinds₁)
  · refine forall₂_imp_of_mem_both (fun x hx y hy hxy => ?_) h.1.attributes
    exact ⟨write_identical hxy.1 (hn x hx).1 (h.2 y hy).1,
      write_identical hxy.2 (hn x hx).2 (h.2 y hy).2⟩
  · exact fun v hv v' h => write_identical h.1 hv h.2

end World

/-- Two trees have identical tables exactly if they are alike: if they have the same tags, identical
attributes in one order, the same kinds of content, identical texts, and children that are alike.
Then they are rendered alike, or fail alike, if no key, value or text in them contains itself. -/
theorem tables_faithful {s : State} {e₁ e₂ : ElementRef} {t₁ t₂ : ElementTree}
    (found₁ : s.world.store.tree? e₁ = some t₁) (found₂ : s.world.store.tree? e₂ = some t₂) :
    ∃ d₁ d₂ s₁ s₂,
      (Action.toTable (.element e₁)).Gives s (Result.ofValue s₁.world (.dict d₁)) s₁ ∧
      (Action.toTable (.element e₂)).Gives s₁ (Result.ofValue s₂.world (.dict d₂)) s₂ ∧
      s₂.world.store.tree? e₁ = some t₁ ∧ s₂.world.store.tree? e₂ = some t₂ ∧
      (s₂.world.store.Identical (.dict d₁) (.dict d₂) ↔ Tree.Like
        (Node.Related s₂.world.store.Identical) s₂.world.store.Identical t₁ t₂) ∧
      (s₂.world.store.Identical (.dict d₁) (.dict d₂) →
        t₁.Values (s₂.world.store.Unwinds []) → t₂.Values (s₂.world.store.Unwinds []) →
        ∀ width depth, s₂.world.render e₁ width depth = s₂.world.render e₂ width depth) := by
  obtain ⟨v₁, store₁, stored₁, ext₁, tabled₁⟩ := Store.store_plain t₁ s.world.store
  obtain ⟨v₂, store₂, stored₂, ext₂, tabled₂⟩ := Store.store_plain t₂ store₁
  obtain ⟨d₁, rfl⟩ := tabled₁.dict
  obtain ⟨d₂, rfl⟩ := tabled₂.dict
  let s₁ : State := s.onWorld fun w => { w with store := store₁ }
  let s₂ : State := s₁.onWorld fun w => { w with store := store₂ }
  have second : s₁.world.store.tree? e₂ = some t₂ := by
    rw [← found₂]
    exact Store.tree?_congr ext₁.elements e₂
  have kept (e : ElementRef) : s₂.world.store.tree? e = s.world.store.tree? e :=
    Store.tree?_congr (ext₁.trans ext₂).elements e
  have same := (tabled₁.extend ext₂).identical_iff tabled₂
  refine ⟨d₁, d₂, s₁, s₂, Action.toTable_gives found₁ stored₁,
    Action.toTable_gives second stored₂, (kept e₁).trans found₁, (kept e₂).trans found₂, same, ?_⟩
  intro identical unwinds₁ unwinds₂ width depth
  exact World.render_congr ((kept e₁).trans found₁) ((kept e₂).trans found₂)
    (World.written_alike (same.mp identical) unwinds₁ unwinds₂) width depth

/-- Two elements with equal dictionaries for texts, one of them with empty attributes. -/
def equalTexts : State :=
  { State.initial .small with
    world.store.elements := #[⟨"a", none, .text (.dict ⟨0⟩), true⟩,
      ⟨"a", some [], .text (.dict ⟨1⟩), true⟩]
    world.store.dicts := #[[(.text "tag", .text "b")], [(.text "tag", .text "b")]] }

theorem equal_texts_tables_faithful :
    equalTexts.world.store.tree? ⟨0⟩ = some (.text ⟨⟨0⟩, "a", none⟩ (.dict ⟨0⟩)) ∧
    equalTexts.world.store.tree? ⟨1⟩ = some (.text ⟨⟨1⟩, "a", some []⟩ (.dict ⟨1⟩)) ∧
    ∃ d₁ d₂ s₁ s₂,
      (Action.toTable (.element ⟨0⟩)).Gives equalTexts (Result.ofValue s₁.world (.dict d₁)) s₁ ∧
      (Action.toTable (.element ⟨1⟩)).Gives s₁ (Result.ofValue s₂.world (.dict d₂)) s₂ ∧
      s₂.world.store.Identical (.dict d₁) (.dict d₂) ∧
      ∀ width depth, s₂.world.render ⟨0⟩ width depth = s₂.world.render ⟨1⟩ width depth := by
  have found₁ : equalTexts.world.store.tree? ⟨0⟩ = some (.text ⟨⟨0⟩, "a", none⟩ (.dict ⟨0⟩)) := rfl
  have found₂ : equalTexts.world.store.tree? ⟨1⟩ =
      some (.text ⟨⟨1⟩, "a", some []⟩ (.dict ⟨1⟩)) := rfl
  obtain ⟨d₁, d₂, s₁, s₂, first, second, kept₁, kept₂, same, rendered⟩ :=
    tables_faithful found₁ found₂
  let table : Dict := [(.text "tag", .text "a"), (.text "text", .dict ⟨0⟩)]
  let middle := equalTexts.onWorld fun w => { w with store.dicts := w.store.dicts.push table }
  have found : middle.world.store.tree? ⟨1⟩ = some (.text ⟨⟨1⟩, "a", some []⟩ (.dict ⟨1⟩)) := rfl
  obtain ⟨-, rfl⟩ := first.unique (Action.toTable_gives found₁ rfl)
  obtain ⟨-, rfl⟩ := second.unique (Action.toTable_gives (e := ⟨1⟩) found rfl)
  have identical := same.mpr (.text ⟨rfl, .nil⟩ (Store.identical_dict_iff.mpr
    (.cons ⟨.refl _ _, .refl _ _⟩ .nil)))
  have unwinds {s : Store} {d : DictRef} (h : s.entries d = [(.text "tag", .text "b")]) :
      s.Unwinds [] (.dict d) := by
    refine .dict List.not_mem_nil ?_ ?_
    · rw [h, List.forall_mem_singleton]
      exact .atom _
    · rw [h, List.forall_mem_singleton]
      exact .atom _
  have bare (P : Value → Prop) : ∀ a ∈ ([] : Attributes), P a.1 ∧ P a.2 := nofun
  refine ⟨found₁, found₂, d₁, d₂, _, _, first, second, identical, ?_⟩
  exact rendered identical (.text (bare _) (unwinds rfl)) (.text (bare _) (unwinds rfl))

/-- Two elements, the first of which stands in the lists that are their texts. -/
def endless : State :=
  { State.initial .small with
    world.store.elements := #[⟨"r", none, .text (.list ⟨0⟩), true⟩,
      ⟨"r", none, .text (.list ⟨1⟩), true⟩]
    world.store.lists := #[[.element ⟨0⟩], [.element ⟨0⟩]] }

/-- The state when tables of some of the elements are made. -/
def endless.tabled (tables : Array Dict) : State :=
  { endless with world.store.dicts := tables }

def endlessTable (l : ListRef) : Dict := [(.text "tag", .text "r"), (.text "text", .list l)]

/-- Where values contain themselves, identical tables need not come from trees that are rendered
alike. -/
theorem endless_rendered_apart : ¬ ∀ (s s₁ s₂ : State) (e₁ e₂ : ElementRef) (t₁ t₂ : ElementTree)
    (d₁ d₂ : DictRef), s.world.store.tree? e₁ = some t₁ → s.world.store.tree? e₂ = some t₂ →
    (Action.toTable (.element e₁)).Gives s (Result.ofValue s₁.world (.dict d₁)) s₁ →
    (Action.toTable (.element e₂)).Gives s₁ (Result.ofValue s₂.world (.dict d₂)) s₂ →
    s₂.world.store.Identical (.dict d₁) (.dict d₂) →
    ∀ width depth, s₂.world.render e₁ width depth = s₂.world.render e₂ width depth := by
  intro every
  let s₁ := endless.tabled #[endlessTable ⟨0⟩]
  let s₂ := endless.tabled #[endlessTable ⟨0⟩, endlessTable ⟨1⟩]
  have found₁ : endless.world.store.tree? ⟨0⟩ = some (.text ⟨⟨0⟩, "r", none⟩ (.list ⟨0⟩)) := rfl
  have found₂ : endless.world.store.tree? ⟨1⟩ = some (.text ⟨⟨1⟩, "r", none⟩ (.list ⟨1⟩)) := rfl
  have found₃ : s₁.world.store.tree? ⟨1⟩ = some (.text ⟨⟨1⟩, "r", none⟩ (.list ⟨1⟩)) := rfl
  have identical : s₂.world.store.Identical (.dict ⟨0⟩) (.dict ⟨1⟩) := by
    have lists : s₂.world.store.Identical (.list ⟨0⟩) (.list ⟨1⟩) :=
      Store.identical_list_iff.mpr (.cons (.refl _ _) .nil)
    exact Store.identical_dict_iff.mpr
      (.cons ⟨.refl _ _, .refl _ _⟩ (.cons ⟨.refl _ _, lists⟩ .nil))
  have alike := every endless s₁ s₂ ⟨0⟩ ⟨1⟩ _ _ ⟨0⟩ ⟨1⟩ found₁ found₂
    (Action.toTable_gives found₁ rfl) (Action.toTable_gives found₃ rfl) identical (.int 2) 0
  have inner : (s₂.world.render ⟨0⟩ (.int 2) 0).value? =
      some "<r>\n  [XMLElement(tag='r', text=[...])]\n</r>" := by decide +kernel
  have outer : (s₂.world.render ⟨1⟩ (.int 2) 0).value? =
      some "<r>\n  [XMLElement(tag='r', text=[XMLElement(tag='r', text=[...])])]\n</r>" := by
    decide +kernel
  rw [alike, outer] at inner
  exact absurd (Option.some.inj inner) (by decide)

end TagTree
