import TagTree.Proofs.Effects

/-!
# What the shown form depends on

The shown form of a value depends on the store, and on no more of a builder than the root of
its last build and whether it builds.
-/

namespace TagTree

/-- What the shown form tells of a builder. -/
def Builder.face (x : Builder) : Option ElementRef × Bool := (x.root, x.isBuilding)

namespace World

theorem rootTag_face (w : World) (b : BuilderRef) :
    w.rootTag b = ((w.builder? b).map Builder.face).bind fun f => f.1.map w.tagOf := by
  unfold rootTag
  cases w.builder? b <;> rfl

theorem isBuilding_face (w : World) (b : BuilderRef) :
    w.isBuilding b = (((w.builder? b).map Builder.face).map Prod.snd).getD false := by
  unfold isBuilding
  cases w.builder? b <;> rfl

/-- The second world has the store of the first, and its builders show the same. -/
structure Shows (w w' : World) : Prop where
  store : w'.store = w.store
  face : ∀ b, (w'.builder? b).map Builder.face = (w.builder? b).map Builder.face

namespace Shows

variable {w w' : World}

/-- A builder changes without a trace in any shown form if its face stays. -/
theorem of_alters {b : BuilderRef} {f : Builder → Builder} (h : w.Alters b f w')
    (store : w'.store = w.store) (face : ∀ x, (f x).face = x.face) : w.Shows w' := by
  refine ⟨store, fun c => ?_⟩
  rw [h c]
  split
  · cases w.builder? c with
    | none => rfl
    | some x => exact congrArg some (face x)
  · rfl

theorem tagOf (h : w.Shows w') (e : ElementRef) : w'.tagOf e = w.tagOf e := by
  rw [World.tagOf, World.tagOf, h.store]

theorem rootTag (h : w.Shows w') (b : BuilderRef) : w'.rootTag b = w.rootTag b := by
  rw [rootTag_face, rootTag_face, h.face, funext h.tagOf]

theorem isBuilding (h : w.Shows w') (b : BuilderRef) : w'.isBuilding b = w.isBuilding b := by
  rw [isBuilding_face, isBuilding_face, h.face]

theorem shownBuilder (h : w.Shows w') (b : BuilderRef) :
    w'.shownBuilder b = w.shownBuilder b := by
  unfold World.shownBuilder
  rw [h.rootTag, h.isBuilding]

theorem shownHandle (h : w.Shows w') (x : Handle) : w'.shownHandle x = w.shownHandle x := by
  unfold World.shownHandle
  rw [h.shownBuilder]

theorem shownCallable (h : w.Shows w') (c : Callable Value) :
    w'.shownCallable c = w.shownCallable c := by
  cases c with
  | verbatim x =>
    exact congrArg ("<bound method TagHandle.tag of " ++ · ++ ">") (h.shownHandle x)
  | member x name =>
    exact congrArg ("<bound method TagHandle." ++ name ++ " of " ++ · ++ ">") (h.shownHandle x)
  | _ => rfl

theorem shownWithin (h : w.Shows w') (n : Nat) (inside : List Container) (v : Value) :
    w'.shownWithin n inside v = w.shownWithin n inside v := by
  induction n generalizing inside v with
  | zero => rfl
  | succ n ih =>
    have hsame (inside : List Container) : w'.shownWithin n inside = w.shownWithin n inside :=
      funext (ih inside)
    unfold World.shownWithin
    cases v <;> simp only [h.store, hsame, h.shownHandle, h.shownBuilder, h.shownCallable]

theorem shown (h : w.Shows w') (v : Value) : w'.shown v = w.shown v := h.shownWithin _ _ v

theorem readWithin (h : w.Shows w') (n : Nat) (inside : List Container) (v : Value) :
    w'.readWithin n inside v = w.readWithin n inside v := by
  induction n generalizing inside v with
  | zero => rfl
  | succ n ih =>
    have hsame (inside : List Container) : w'.readWithin n inside = w.readWithin n inside :=
      funext (ih inside)
    unfold World.readWithin
    cases v with
    | callable c => cases c <;> simp only [h.shown]
    | _ => simp only [h.store, hsame, h.shown]

theorem read (h : w.Shows w') (v : Value) : w'.read v = w.read v := h.readWithin _ _ v

theorem truthy (h : w.Shows w') (v : Value) : w'.truthy v = w.truthy v := by
  rw [World.truthy, World.truthy, h.store]

end Shows

end World

end TagTree
