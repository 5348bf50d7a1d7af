import TypeExport.Document.Load
import TypeExport.Output.Lemmas
import TypeExport.Override.Recipe
import TypeExport.Override.Rules
import TypeExport.Proofs.Ends
import TypeExport.Proofs.Universe.Growth
import TypeExport.Proofs.Universe.Sound
import TypeExport.Run.Build
import TypeExport.Universe.Lemmas
import TypeExport.Proofs.Reference.Names
import TypeExport.Proofs.Universe.Answers
import TypeExport.Proofs.Universe.Key
import TypeExport.Proofs.Universe.Building
import TypeExport.Proofs.Universe.Resolving
import TypeExport.Proofs.Universe.Loading
import TypeExport.Proofs.Run.Plan
import TypeExport.Proofs.Output.Registry
import TypeExport.Proofs.Run.Consistent
import TypeExport.Proofs.Run.Blame
import TypeExport.Proofs.Run.Resolving
import TypeExport.Proofs.Run.Referring
import TypeExport.Proofs.Run.Completing
import TypeExport.Proofs.Run.Members
import TypeExport.Proofs.Run.Finishing
import TypeExport.Proofs.Run.Governed
import TypeExport.Proofs.Run.Finished
import TypeExport.Proofs.Correspondence
import TypeExport.Proofs.Objects
import TypeExport.Proofs.Names
import TypeExport.Proofs.Scope
import TypeExport.Proofs.Outcome
import TypeExport.Proofs.Run.Varying
import TypeExport.Proofs.Roots
import TypeExport.Proofs.Calls
import TypeExport.Proofs.Run.Advancing
import TypeExport.Proofs.Faultless
import TypeExport.Proofs.Run.Creating
import TypeExport.Proofs.Run.Passes
import TypeExport.Proofs.Output.Erased
import TypeExport.Proofs.Run.Paired
import TypeExport.Proofs.Universe.Akin
import TypeExport.Proofs.Run.Parallel
import TypeExport.Proofs.Run.Lockstep
import TypeExport.Proofs.Run.Abreast
import TypeExport.Proofs.Indifference
import TypeExport.Proofs.Reference.Spelling
import TypeExport.Proofs.Reference.Grammar
import TypeExport.Proofs.Universe.Retaining
import TypeExport.Proofs.Universe.Declaring
import TypeExport.Proofs.Universe.Completing
import TypeExport.Proofs.Universe.Closable
import TypeExport.Proofs.Document.Closing
import TypeExport.Proofs.Universe.Covering
import TypeExport.Proofs.Document.Faithful
import TypeExport.Proofs.Universe.Meaning
import TypeExport.Proofs.Universe.Unfolding
import TypeExport.Proofs.Document.Denoting
import TypeExport.Proofs.Output.History
import TypeExport.Proofs.Paths
import TypeExport.Proofs.Redirected
import TypeExport.Proofs.Universe.Visible
import TypeExport.Proofs.Capture
import TypeExport.Proofs.Universe.Branching
import TypeExport.Proofs.Universe.Maintaining
import TypeExport.Proofs.Universe.Heeding
import TypeExport.Proofs.Document.Order
import TypeExport.Proofs.Run.Kept
import TypeExport.Proofs.Wrapping
import TypeExport.Proofs.Retrying
import TypeExport.Proofs.Output.Leading
import TypeExport.Proofs.Output.Literal
import TypeExport.Proofs.Output.Separated
import TypeExport.Proofs.Output.Reading
import TypeExport.Proofs.Output.Encoding
import TypeExport.Proofs.Enumerations
import TypeExport.Proofs.Files
import TypeExport.Proofs.Plural
import TypeExport.Proofs.TopLevel
import TypeExport.Proofs.Locality
import TypeExport.Proofs.Universe.Sparing
import TypeExport.Proofs.Universe.Operations
import TypeExport.Proofs.Universe.Formed
import TypeExport.Proofs.Universe.Replaying
import TypeExport.Proofs.Universe.Reserved
import TypeExport.Proofs.Document.Reserving
import TypeExport.Proofs.Specifiers
import TypeExport.Proofs.Distinct
import TypeExport.Proofs.Run.Choosing
import TypeExport.Proofs.Run.Relocated
import TypeExport.Proofs.Placement
import TypeExport.Proofs.Run.Relaying
import TypeExport.Proofs.Run.Visiting
import TypeExport.Proofs.Registration
import TypeExport.Proofs.Reference.Cutting
import TypeExport.Proofs.Reference.Viable
import TypeExport.Proofs.Output.Dialects
import TypeExport.Proofs.Universe.Valued
import TypeExport.Proofs.Universe.Counting
import TypeExport.Proofs.Universe.Layout
import TypeExport.Proofs.Flags
import TypeExport.Proofs.Uniform
import TypeExport.Proofs.Capitals
import TypeExport.Proofs.Lowering
