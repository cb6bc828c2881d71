import StyleGuide.Machine
import StyleGuide.Main
import StyleGuide.Proofs.Accounting
import StyleGuide.Proofs.Contents
import StyleGuide.Proofs.Continuation
import StyleGuide.Proofs.Discovery
import StyleGuide.Proofs.Encoding
import StyleGuide.Proofs.FileOrder
import StyleGuide.Proofs.Interference
import StyleGuide.Proofs.Ledger
import StyleGuide.Proofs.Literals
import StyleGuide.Proofs.Positions
import StyleGuide.Proofs.RowReports
import StyleGuide.Proofs.Statements
import StyleGuide.Proofs.Suppression
import StyleGuide.Proofs.TokenStream.Cover
import StyleGuide.Proofs.Unchanged
import StyleGuide.Proofs.Nesting
import StyleGuide.Proofs.LogicalLine.Origin
import StyleGuide.Proofs.Origins
import StyleGuide.Proofs.Lexeme.Spread
import StyleGuide.Proofs.Rule.OperatorGaps
import StyleGuide.Proofs.Spacing
import StyleGuide.Proofs.Remedies
import StyleGuide.Proofs.BlankLines
import StyleGuide.Proofs.Removed
import StyleGuide.Proofs.BlankRows
import StyleGuide.Proofs.StringTokens
import StyleGuide.Proofs.Closing
import StyleGuide.Proofs.Rule.CompoundStatement
import StyleGuide.Proofs.IndentLevels
import StyleGuide.Proofs.FixtureVerdicts
import StyleGuide.Proofs.FixtureRows
import StyleGuide.Proofs.Masks
import StyleGuide.Proofs.Marks
import StyleGuide.Proofs.Lexeme.Skim
import StyleGuide.Proofs.BlockDepths
import StyleGuide.Proofs.SecondPass
