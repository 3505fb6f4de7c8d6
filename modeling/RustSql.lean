import RustSql.Check.Panics
import RustSql.Check.Rename
import RustSql.V2.TableHistory
import RustSql.V2.HandleSafety
import RustSql.V2.CodecText
import RustSql.V2.LockReentry
import RustSql.V2.WalCommits
import RustSql.V2.TornInserts
import RustSql.Memory.SimultaneousUpdates
import RustSql.Sql.OrderKeys
import RustSql.Sql.RelationalJoins
import RustSql.Sql.TimeDiff
import RustSql.Check.RoundingPath
import RustSql.Sql.LexerCover
import RustSql.Sqlite3.RowIdRuns
import RustSql.Sql.JsonMerge
import RustSql.Sql.JsonEdits
import RustSql.Sql.WindowBuckets
import RustSql.Sql.IndexTermKeys
import RustSql.Sql.PatternCopies
import RustSql.V2.FileHistory
import RustSql.Sqlite3.Database
import RustSql.Sql.CompoundQueries
import RustSql.Sql.Grouping
import RustSql.V2.TxnEnds
