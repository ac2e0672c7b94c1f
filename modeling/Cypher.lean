import Cypher.Diagnostic.Report
import Cypher.Parse
import Cypher.Tree.Visit
import Cypher.Proofs.Run
import Cypher.Proofs.Stages
import Cypher.Proofs.Modes
import Cypher.Proofs.Balance
import Cypher.Proofs.Progress
import Cypher.Proofs.Passage
import Cypher.Proofs.Chain
import Cypher.Proofs.Writing
import Cypher.Proofs.ReadBack
import Cypher.Proofs.Precedence
import Cypher.Proofs.Single
import Cypher.Proofs.RoundTrip
import Cypher.Proofs.Element
import Cypher.Proofs.Placement
import Cypher.Proofs.Layout.Expression
import Cypher.Proofs.Layout.Clause
import Cypher.Proofs.Recovery
import Cypher.Proofs.Layout.Document
import Cypher.Proofs.Layout.Source
import Cypher.Proofs.Parallel.Basic
import Cypher.Proofs.Lossless
import Cypher.Proofs.Isolation
import Cypher.Proofs.Ledger.Basic
import Cypher.Proofs.Ledger.Expression
import Cypher.Proofs.Ledger.Clause
import Cypher.Proofs.Ledger.Document
import Cypher.Proofs.Clean
import Cypher.Proofs.Blocks
import Cypher.Proofs.Tiling.Query
import Cypher.Proofs.Tiling.Document
import Cypher.Proofs.Nodes
import Cypher.Proofs.Extension.Reading
import Cypher.Proofs.Extension.Checks
import Cypher.Proofs.Extension.Dialect
import Cypher.Proofs.Sealed
import Cypher.Proofs.History
import Cypher.Proofs.Outline
import Cypher.Proofs.Seclusion
import Cypher.Proofs.Growth.Basic
import Cypher.Proofs.Growth.Expression
import Cypher.Proofs.Growth.Clause
import Cypher.Proofs.Growth.Document
import Cypher.Proofs.Depth
import Cypher.Proofs.Size
import Cypher.Proofs.Columns
import Cypher.Proofs.Rereading
import Cypher.Proofs.Provenance.Basic
import Cypher.Proofs.Provenance.Expression
import Cypher.Proofs.Provenance.Clause
import Cypher.Proofs.Provenance.Document
import Cypher.Proofs.Copies
import Cypher.Proofs.Repeats
import Cypher.Proofs.Brackets
import Cypher.Proofs.Closing
import Cypher.Proofs.Room
import Cypher.Proofs.Switches
import Cypher.Proofs.Stripped.Tree
import Cypher.Proofs.Stripped.Rule
import Cypher.Proofs.Stripped.Expression
import Cypher.Proofs.Stripped.Clause
import Cypher.Proofs.Stripped.Query
import Cypher.Proofs.Stripped.Node
import Cypher.Proofs.Stripped.Checks
import Cypher.Proofs.Labels.Piece
import Cypher.Proofs.Labels.Rule
import Cypher.Proofs.Labels.Checks
import Cypher.Proofs.Lines
import Cypher.Proofs.Addresses
import Cypher.Proofs.Visits
import Cypher.Proofs.Weeded.Tree
import Cypher.Proofs.Weeded.Checks
import Cypher.Proofs.Shape.Basic
import Cypher.Proofs.Shape.Expression
import Cypher.Proofs.Shape.Clause
import Cypher.Proofs.Shape.Document
import Cypher.Proofs.Rebinding
import Cypher.Proofs.LeftOperands
import Cypher.Proofs.Lively
import Cypher.Proofs.Border
import Cypher.Proofs.Comparisons
import Cypher.Proofs.Guess.Basic
import Cypher.Proofs.Guess.Expression
import Cypher.Proofs.Guess.Clause
import Cypher.Proofs.Guess.Brackets
import Cypher.Proofs.Guess.Row
import Cypher.Proofs.Guess.Path
import Cypher.Proofs.Guess.Reading
import Cypher.Proofs.Guess.Target
import Cypher.Proofs.Guess.Document
import Cypher.Proofs.Quoted.Place
import Cypher.Proofs.Quoted.Name
import Cypher.Proofs.Quoted.String
import Cypher.Proofs.Pattern.Writing
import Cypher.Proofs.Pattern.Reading
import Cypher.Proofs.Pattern.Path
import Cypher.Proofs.Pattern.Document
import Cypher.Proofs.Excerpt.Basic
import Cypher.Proofs.Excerpt.Expression
import Cypher.Proofs.Excerpt.Alone
import Cypher.Proofs.Levels
import Cypher.Proofs.Merge.Document
import Cypher.Proofs.Numbers.Pattern
import Cypher.Proofs.Numbers.Reading
import Cypher.Proofs.Positions
import Cypher.Proofs.Stack
import Cypher.Proofs.Sight
import Cypher.Proofs.Range
import Cypher.Proofs.Search
import Cypher.Proofs.Report
