import PackageDoc.Main
import PackageDoc.Files.Session
import PackageDoc.Model.Decode
import PackageDoc.Snapshot.Decode
import PackageDoc.Analysis.Run
import PackageDoc.Analysis.Rules
import PackageDoc.Analysis.Types
import PackageDoc.Analysis.Links
import PackageDoc.Analysis.Merge
import PackageDoc.Analysis.ModuleId
import PackageDoc.Json.Render
import PackageDoc.Json.Binary64
import PackageDoc.Model.Encode
import PackageDoc.Config
import PackageDoc.Analysis.Target
import PackageDoc.Model.Tree
import PackageDoc.Docstring.Grammar
import PackageDoc.Declaration.Table
import PackageDoc.Proofs.Imports.Origins
import PackageDoc.Proofs.Imports.Coherence
import PackageDoc.Proofs.Paths.Rounds
import PackageDoc.Proofs.Paths.Regrowth
import PackageDoc.Proofs.Types.Termination
import PackageDoc.Proofs.Types.Unions
import PackageDoc.Proofs.Syntax.Escapes
import PackageDoc.Proofs.Merge.Precedence
import PackageDoc.Proofs.Declaration.Fresh
import PackageDoc.Proofs.Merge.Views
import PackageDoc.Proofs.Imports.Alike
import PackageDoc.Proofs.Merge.Nodes
import PackageDoc.Proofs.Types.Results
import PackageDoc.Proofs.Types.Grounding
import PackageDoc.Proofs.Types.Completeness
import PackageDoc.Proofs.Syntax.Quoting
import PackageDoc.Proofs.Syntax.Lexing
import PackageDoc.Proofs.Syntax.Spelling
import PackageDoc.Proofs.Syntax.Reading
import PackageDoc.Proofs.Syntax.Roundtrip
import PackageDoc.Proofs.Layout.Lines
import PackageDoc.Proofs.Layout.Walk
import PackageDoc.Proofs.Layout.Tokens
import PackageDoc.Proofs.Layout.Within
import PackageDoc.Proofs.Layout.InLine
import PackageDoc.Proofs.Layout.Places
import PackageDoc.Proofs.Layout.Comments
import PackageDoc.Proofs.Layout.Blocks
import PackageDoc.Proofs.Layout.Leading
import PackageDoc.Proofs.Tree.Parents
import PackageDoc.Proofs.Tree.Assembly
import PackageDoc.Proofs.Order.Shuffled
import PackageDoc.Proofs.Order.Steps
import PackageDoc.Proofs.Order.Documents
import PackageDoc.Proofs.Annotation.Grammar
import PackageDoc.Proofs.Annotation.Readback
import PackageDoc.Proofs.Annotation.Moved
import PackageDoc.Proofs.Annotation.Extent
import PackageDoc.Proofs.Annotation.Lockstep
import PackageDoc.Proofs.Annotation.Slices
import PackageDoc.Proofs.Annotation.Hints
import PackageDoc.Proofs.Annotation.Reparsing
import PackageDoc.Proofs.Steps.Frames
import PackageDoc.Proofs.Tree.Nodes
import PackageDoc.Proofs.Tree.Documented
import PackageDoc.Proofs.Tree.Docstrings
import PackageDoc.Proofs.Rules.Verdicts
import PackageDoc.Proofs.Rules.Run
import PackageDoc.Proofs.Progress.Rounds
import PackageDoc.Proofs.Progress.Loops
import PackageDoc.Proofs.Progress.Expressions
import PackageDoc.Proofs.Progress.Tokens
import PackageDoc.Proofs.Progress.Lines
import PackageDoc.Proofs.Progress.Statements
import PackageDoc.Proofs.Progress.Texts
import PackageDoc.Proofs.Tokens.Tiling
import PackageDoc.Proofs.Tokens.LineEnds
import PackageDoc.Proofs.Tokens.Balance
import PackageDoc.Proofs.Tokens.Literals
import PackageDoc.Proofs.Syntax.Literals
import PackageDoc.Proofs.Syntax.OneLine
import PackageDoc.Proofs.Tokens.Brackets
import PackageDoc.Proofs.Docstring.Rendering
import PackageDoc.Proofs.Docstring.Roundtrip
import PackageDoc.Proofs.Files.Pruning
import PackageDoc.Proofs.Files.Names
import PackageDoc.Proofs.Glob.Pieces
import PackageDoc.Proofs.Skipping.Passing
import PackageDoc.Proofs.Skipping.Places
import PackageDoc.Proofs.Skipping.Lambdas
import PackageDoc.Proofs.Skipping.Commas
import PackageDoc.Proofs.Skipping.Values
import PackageDoc.Proofs.Skipping.Parameters
import PackageDoc.Proofs.Text.Blanks
import PackageDoc.Proofs.Annotation.Embedding
import PackageDoc.Proofs.Signature.Items
import PackageDoc.Proofs.Signature.Rendering
import PackageDoc.Proofs.Signature.Recovered
import PackageDoc.Proofs.Annotation.Bracketed
import PackageDoc.Proofs.Types.Placed
import PackageDoc.Proofs.Types.Quoted
import PackageDoc.Proofs.Imports.Linked
import PackageDoc.Proofs.Declaration.Variables
import PackageDoc.Proofs.Types.Links
import PackageDoc.Proofs.Merge.Overloads
import PackageDoc.Proofs.Signature.Comments
import PackageDoc.Proofs.Text.Words
import PackageDoc.Proofs.Docstring.Division
import PackageDoc.Proofs.Docstring.Entries
import PackageDoc.Proofs.Docstring.Sections
import PackageDoc.Proofs.Docstring.Margin
import PackageDoc.Proofs.Source.Declared
import PackageDoc.Proofs.Source.LineNumbers
import PackageDoc.Proofs.Spans.Nested
import PackageDoc.Proofs.Spans.Texts
import PackageDoc.Proofs.Arena.Registration
import PackageDoc.Proofs.Arena.Consistency
