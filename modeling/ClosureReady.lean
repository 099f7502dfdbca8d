import ClosureReady.CommandLine.Arguments
import ClosureReady.CommandLine.FileSystem
import ClosureReady.CommandLine.LogFilter
import ClosureReady.CommandLine.Run
import ClosureReady.Fault
import ClosureReady.Grammar.Class
import ClosureReady.Grammar.Collection
import ClosureReady.Grammar.Cursor
import ClosureReady.Grammar.Expression
import ClosureReady.Grammar.Function
import ClosureReady.Grammar.Lexeme
import ClosureReady.Grammar.Module
import ClosureReady.Grammar.Program
import ClosureReady.Grammar.Reader
import ClosureReady.Grammar.Rule
import ClosureReady.Grammar.Statement
import ClosureReady.Main
import ClosureReady.Notice
import ClosureReady.Pass.ClassWrapper
import ClosureReady.Pass.Helper
import ClosureReady.Pass.HelperDeclarations
import ClosureReady.Pass.HelperUses
import ClosureReady.Pass.MarkedLineRemoval
import ClosureReady.Pass.MarkedLines
import ClosureReady.Pass.Workspace
import ClosureReady.Pipeline
import ClosureReady.Proofs.FixRun
import ClosureReady.Proofs.Imprint
import ClosureReady.Proofs.MarkedLines
import ClosureReady.Source
import ClosureReady.Text.Blank
import ClosureReady.Text.CodeRange
import ClosureReady.Text.Letter
import ClosureReady.Text.Mark
import ClosureReady.Text.Number
import ClosureReady.Text.Position
import ClosureReady.Text.Word
import ClosureReady.Token.Basic
import ClosureReady.Token.Print
import ClosureReady.Token.Scan
import ClosureReady.Token.Stream
import ClosureReady.Tree.Basic
import ClosureReady.Tree.Build
import ClosureReady.Proofs.ClassUnwrapping
import ClosureReady.Proofs.DeclarationLines
import ClosureReady.Proofs.Numbering
import ClosureReady.Proofs.HelperReferences
import ClosureReady.Proofs.Conservation
import ClosureReady.Proofs.Placement
import ClosureReady.Proofs.PreparedStream
import ClosureReady.Proofs.Boilerplate
import ClosureReady.Proofs.ClassBody
import ClosureReady.Proofs.ClassDeclarator
import ClosureReady.Proofs.ClassLayout
import ClosureReady.Proofs.UnwrappedClass
import ClosureReady.Proofs.LexemeText
import ClosureReady.Proofs.Reading
import ClosureReady.Proofs.RuleReading
import ClosureReady.Proofs.SourceTiling
import ClosureReady.Proofs.PassFlags
import ClosureReady.Proofs.Reprinting
import ClosureReady.Proofs.BrokenLayout
import ClosureReady.Proofs.ClassWords
import ClosureReady.Proofs.ModifiedFlag
import ClosureReady.Proofs.ParentReferences
import ClosureReady.Proofs.ClassTranslation
import ClosureReady.Proofs.Brackets
import ClosureReady.Proofs.ConstructorFirst
import ClosureReady.Proofs.DeclaratorScope
import ClosureReady.Proofs.ConstructorRun
import ClosureReady.Proofs.TextTiling
import ClosureReady.Proofs.PathRereading
import ClosureReady.Proofs.BodyRewrite
import ClosureReady.Proofs.TextCut
import ClosureReady.Proofs.HelperSweep
import ClosureReady.Proofs.CommentOverlap
import ClosureReady.Proofs.Separation
import ClosureReady.Proofs.Traversal
import ClosureReady.Proofs.LinePositions
import ClosureReady.Proofs.HelperAliases
import ClosureReady.Proofs.OutputPath
import ClosureReady.Proofs.OutputDiscipline
import ClosureReady.Proofs.TreeLowering
import ClosureReady.Proofs.LineRanges
