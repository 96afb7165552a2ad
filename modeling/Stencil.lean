import Stencil.Block
import Stencil.Chars.Digit
import Stencil.Chars.Lines
import Stencil.Chars.Search
import Stencil.Chars.Space
import Stencil.Command.Arguments
import Stencil.Command.Run
import Stencil.Diagnostic
import Stencil.Dict
import Stencil.Digest
import Stencil.Document
import Stencil.FileTree.Access
import Stencil.FileTree.Change
import Stencil.FileTree.Entry
import Stencil.Host.Literal
import Stencil.Host.Runtime
import Stencil.Json.Read
import Stencil.Json.Value
import Stencil.Lowering.Component
import Stencil.Lowering.Node
import Stencil.Lowering.Pass
import Stencil.Lowering.Sequence
import Stencil.Lowering.Switch
import Stencil.Lowering.Tag
import Stencil.Main
import Stencil.Markup.Content
import Stencil.Markup.Formatting
import Stencil.Markup.Insertion
import Stencil.Markup.Lexer
import Stencil.Markup.Node
import Stencil.Markup.Parse
import Stencil.Markup.Reference
import Stencil.Markup.Reference.Names
import Stencil.Markup.Token
import Stencil.Markup.Tree
import Stencil.Markup.Vocabulary
import Stencil.Options
import Stencil.Path
import Stencil.Project.Build
import Stencil.Project.Cache
import Stencil.Project.Config
import Stencil.Project.Source
import Stencil.Template.Descriptor
import Stencil.Template.Directive
import Stencil.Template.Interpolation
import Stencil.Template.Iteration
import Stencil.Text
import Stencil.Proofs.Descriptor
import Stencil.Proofs.Grouping
import Stencil.Proofs.Rendering
import Stencil.Proofs.WellFormed
import Stencil.Proofs.Walks
import Stencil.Proofs.Placement
import Stencil.Proofs.Numbering
import Stencil.Proofs.Acceptance
import Stencil.Proofs.Refinement
import Stencil.Proofs.Accumulators
import Stencil.Proofs.Scanning
import Stencil.Proofs.Templates
import Stencil.Proofs.SiblingBalance
import Stencil.Proofs.Balance
import Stencil.Proofs.Observation
import Stencil.Proofs.BlockGrammar
import Stencil.Proofs.JsonText
import Stencil.Proofs.Fingerprint
import Stencil.Proofs.Locations
import Stencil.Proofs.CachedOutput
import Stencil.Proofs.BuildOutputs
import Stencil.Proofs.BlankText
import Stencil.Proofs.Splicing
import Stencil.Proofs.Failure
import Stencil.Proofs.Blame
import Stencil.Proofs.ErrorPlaces
import Stencil.Proofs.Containment
import Stencil.Proofs.Calls
import Stencil.Proofs.Retention
import Stencil.Proofs.NameIndependence
import Stencil.Proofs.PathSteps
import Stencil.Proofs.Discovery
import Stencil.Proofs.Footprints
import Stencil.Proofs.Schedules
import Stencil.Proofs.Rebuild
import Stencil.Proofs.Interleaving
import Stencil.Proofs.Concatenation
import Stencil.Proofs.Reordering
import Stencil.Proofs.MapKeys
import Stencil.Proofs.ArgumentLists
import Stencil.Proofs.CallArguments
import Stencil.Proofs.LastSeparator
import Stencil.Proofs.Substring
import Stencil.Proofs.WrittenText
import Stencil.Proofs.Classification
import Stencil.Proofs.PlainFilter
import Stencil.Proofs.Folding
import Stencil.Proofs.LiteralValues
import Stencil.Proofs.ClauseTokens
import Stencil.Proofs.OptionsText
import Stencil.Proofs.QuotedNames
import Stencil.Proofs.Comments
import Stencil.Proofs.StableClauses
