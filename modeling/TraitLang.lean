import TraitLang.Command.Directory
import TraitLang.Main
import TraitLang.Proofs.Ancestors
import TraitLang.Proofs.Assignment
import TraitLang.Proofs.Bodies.Contract
import TraitLang.Proofs.Clauses
import TraitLang.Proofs.Conformances.Equality
import TraitLang.Proofs.Conformances.Lifecycle
import TraitLang.Proofs.Conformances.Stored
import TraitLang.Proofs.Dispatch
import TraitLang.Proofs.Excerpts
import TraitLang.Proofs.Freshness
import TraitLang.Proofs.Layouts.Places
import TraitLang.Proofs.Lexing.Lines
import TraitLang.Proofs.Lockstep.Choices
import TraitLang.Proofs.Parsing.Joining
import TraitLang.Proofs.Printing.Precedence
import TraitLang.Proofs.Printing.Types
import TraitLang.Proofs.Requirements
import TraitLang.Proofs.Returns
import TraitLang.Proofs.Traversal
import TraitLang.Proofs.Unification.Comparison
import TraitLang.Proofs.UseSites
