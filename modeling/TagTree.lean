import TagTree.Proofs.Arguments
import TagTree.Proofs.Brackets
import TagTree.Proofs.Checks
import TagTree.Proofs.Derivations
import TagTree.Proofs.Document
import TagTree.Proofs.Elements
import TagTree.Proofs.Encodings
import TagTree.Proofs.Exports
import TagTree.Proofs.Finished
import TagTree.Proofs.History
import TagTree.Proofs.Isolation
import TagTree.Proofs.Layout
import TagTree.Proofs.Limits
import TagTree.Proofs.Policies
import TagTree.Proofs.Records
import TagTree.Proofs.Refusals
import TagTree.Proofs.Searches
import TagTree.Proofs.Unambiguous
import TagTree.Script.Exec
import TagTree.Script.Literal
