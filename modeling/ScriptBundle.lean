import ScriptBundle.Main
import ScriptBundle.Proofs.ModuleGraph.Closure
import ScriptBundle.Proofs.Bundle.Requires
import ScriptBundle.Proofs.Statement.Recorded
import ScriptBundle.Proofs.Statement.Span
import ScriptBundle.Proofs.Lowering.Edits
import ScriptBundle.Proofs.Lowering.Settled
import ScriptBundle.Proofs.Script.Tokens
import ScriptBundle.Proofs.Statement.Append
import ScriptBundle.Proofs.Statement.Compose
import ScriptBundle.Proofs.ModuleGraph.Files
import ScriptBundle.Proofs.FileTree.PathFault
import ScriptBundle.Proofs.Bundle.Outcome
import ScriptBundle.Proofs.Written.RoundTrip
import ScriptBundle.Proofs.Token.Lossless
import ScriptBundle.Proofs.ModuleGraph.Rounds
import ScriptBundle.Proofs.ModuleGraph.FailFast
import ScriptBundle.Proofs.Bundle.Invariants
import ScriptBundle.Proofs.Path.Place
import ScriptBundle.Proofs.Project.Site
import ScriptBundle.Proofs.Session.Agree
import ScriptBundle.Proofs.Project.Resolution
import ScriptBundle.Proofs.Project.Modules
import ScriptBundle.Proofs.Bundle.Relocation
import ScriptBundle.Proofs.Resolver.Candidates
import ScriptBundle.Proofs.CommandLine.Files
import ScriptBundle.Proofs.Token.Comment
import ScriptBundle.Proofs.Statement.LineEnds
import ScriptBundle.Proofs.StringLiteral.Escapes
import ScriptBundle.Proofs.Resolver.Packages
import ScriptBundle.Proofs.Token.Template
import ScriptBundle.Proofs.Statement.Annotation
import ScriptBundle.Proofs.Statement.LineBreak
import ScriptBundle.Proofs.Lowering.Erasure
import ScriptBundle.Proofs.Lowering.Evaluation
import ScriptBundle.Proofs.Statement.PatternNames
import ScriptBundle.Proofs.Lowering.LocalNames
import ScriptBundle.Proofs.Lowering.DefaultExport
import ScriptBundle.Proofs.Token.Punctuator
import ScriptBundle.Proofs.Diagnostic.Accounts
import ScriptBundle.Proofs.Bundle.TypeCheck
import ScriptBundle.Proofs.TypeSyntax.Declaration
import ScriptBundle.Proofs.StringLiteral.Extent
import ScriptBundle.Proofs.Diagnostic.RoundTrip
import ScriptBundle.Proofs.Diagnostic.SnippetLines
import ScriptBundle.Proofs.Lowering.PropertyAccess
import ScriptBundle.Proofs.Registry.Numbering
