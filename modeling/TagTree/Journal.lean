import TagTree.Reading

/-!
# The journal

Records stand in the journal in order of writing. A record keeps what its correlation
read as when it was written, so later changes of the correlation do not reach it.
-/

namespace TagTree.World

def correlationOf (w : World) (b : BuilderRef) : Datum :=
  ((w.builder? b).map fun (x : Builder) => w.read x.correlation).getD .none

def notice (w : World) (b : BuilderRef) (n : Notice) : World :=
  w.note (.notice b (w.correlationOf b) n)

@[simp] theorem store_notice (w : World) (b : BuilderRef) (n : Notice) :
    (w.notice b n).store = w.store := rfl

@[simp] theorem builders_notice (w : World) (b : BuilderRef) (n : Notice) :
    (w.notice b n).builders = w.builders := rfl

@[simp] theorem journal_notice (w : World) (b : BuilderRef) (n : Notice) :
    (w.notice b n).journal = w.journal ++ [.notice b (w.correlationOf b) n] := rfl

end TagTree.World
