import TableLineage.Main
import TableLineage.Proofs.Glob
import TableLineage.Proofs.Grammar.Progress
import TableLineage.Proofs.Graph.Alike
import TableLineage.Proofs.Lineage.Algebra
import TableLineage.Proofs.Lineage.Composition
import TableLineage.Proofs.Lineage.Hidden
import TableLineage.Proofs.Lineage.LetterCase
import TableLineage.Proofs.Lineage.LexicalScope
import TableLineage.Proofs.Lineage.Rename
import TableLineage.Proofs.QueryLog.Connection
import TableLineage.Proofs.QueryLog.Pieces
import TableLineage.Proofs.Report
import TableLineage.Proofs.Service.Fanout
import TableLineage.Proofs.Service.Saving
import TableLineage.Proofs.SourceOrder
import TableLineage.Proofs.Statement.ColumnPath
import TableLineage.Proofs.Statement.InTurn
import TableLineage.Proofs.Store.Supersession
import TableLineage.QueryLog.Lineage
