import TagTree.Atom
import TagTree.Fault.Kind

/-!
# Scripts

A script is data: steps that call builders, tag handles and elements, with blocks
as expressions. Expressions are evaluated by the step that holds them; a block's
steps run when the block is called. Steps that run no block are actions, steps that
may run blocks are runs, and both are generic in what stands for an argument: an
expression before evaluation and a value after it.
-/

namespace TagTree

inductive Level where
  | debug
  | info
  | warning
  | error
  deriving DecidableEq, Repr

inductive Property where
  | tag
  | attributes
  | content
  | children
  | text
  | selfClosing
  | hasChildren
  deriving DecidableEq, Repr

inductive Sample where
  | document
  | page
  | report
  deriving DecidableEq, Repr

inductive LogMethod where
  | debug
  | info
  | warning
  | exception
  deriving DecidableEq, Repr

def LogMethod.level : LogMethod → Level
  | debug => .debug
  | info => .info
  | warning => .warning
  | exception => .error

/-- One call on a logger: the method, the message, further particulars, whether the
fault being handled is to be recorded where the call says so, and that fault. -/
structure LogCall (ε : Type) where
  method : LogMethod
  message : String
  extra : Option ε
  withFault : Option Bool
  during : Option FaultKind

inductive Run (ε : Type) where
  | newBuilder (builder : String) (block settings correlation : Option ε)
  | build (builder : String) (block : ε)
  | buildTree (block : ε) (settings correlation : Option ε)
  | buildText (block : ε) (settings correlation : Option ε)
  | call (handle : Option String) (name : String) (args : List ε)
      (named : List (String × ε))
  | invoke (function : String) (args : List ε) (named : List (String × ε))
  | sample (name : Sample)

inductive Action (ε : Type) where
  | keep (value : ε)
  | putEntry (container value key : ε)
  | equal (left right : ε)
  | display (value : ε)
  | raise (kind : FaultKind) (message : String)
  | fail (kind : FaultKind) (args : List ε)
  | state (builder : String)
  | render (builder : String)
  | builderText (builder : String)
  | session (builder : String)
  | handle (builder : Option String)
  | lookup (handle : Option String) (name : String)
  | element (tag : ε) (attributes content : Option ε)
  | attachText (element text : ε)
  | attachChildren (element children : ε)
  | property (element : ε) (property : Property)
  | attributeOf (element name : ε) (default : Option ε)
  | find (element tag : ε)
  | findAll (element tag : ε)
  | nodes (element : ε)
  | toTable (element : ε)
  | renderElement (element : ε) (depth width : Option ε)
  | settings (fields : List (String × ε))
  | override (base : ε) (fields : List (String × ε))
  | settingsOfTable (data : ε)
  | settingsOfJson (text : ε)
  | strictSettings
  | lenientSettings
  | settingsJson (settings : ε) (indent : Option ε)
  | assignSetting (settings : ε) (field : String) (value : ε)
  | diagnostic (severity : Level) (message component : ε) (details correlation : Option ε)
  | counters (fields : List (String × ε))
  | journal (levels : Option (List Level))
  | logger (name : String) (correlation component : Option ε) (calls : List (LogCall ε))
  | convert (target value : ε) (correlation : Option ε) (installed : Bool)
  | exportTree (value : ε)
  | exportStrict (value : ε) (installed : Bool)
  | adapter (name : ε) (correlation : Option ε) (installed : Bool)
  | adapters (installed : Bool)
  | package

mutual

/-- An expression. Each evaluation of a composite expression makes a fresh object. A
literal that cannot be read fails when it is evaluated. -/
inductive Expr where
  | atom (a : Atom)
  | nan
  | unreadable (kind : FaultKind) (message : String)
  | list (items : List Expr)
  | tuple (items : List Expr)
  | dict (entries : List (Expr × Expr))
  | view (entries : List (Expr × Expr))
  | variable (name : String)
  | builder (name : String)
  | handle
  | settings (fields : List (String × Expr))
  | element (tag : Expr) (attributes content : Option Expr)
  | factory (name : String)
  | block (steps : List Step) (result : Expr)
  | chain (count : Nat) (tags : List String) (leaf : Expr)

inductive Step where
  | attempt (steps : List Step) (caught : List FaultKind) (keep : Option String)
  | loop (count : Int) (counter : String) (steps : List Step)
  | run (run : Run Expr) (keep : Option String)
  | act (action : Action Expr) (keep : Option String)

end

end TagTree
