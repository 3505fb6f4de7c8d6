import Mathlib.Data.Finset.Basic
import RustSql.Common.Value
import RustSql.V2.Page

/-!
# Transactions and row versions

The records of the transaction manager and the version list a stored row is.
A version carries the transaction that created it and, once that transaction
has committed, its commit timestamp; deletion is recorded the same way.
-/

namespace RustSql.V2

/-- Transaction ids; the code's `TransactionId(u64)`. -/
abbrev TransactionId := ℕ

/-- `IsolationLevel`. -/
inductive IsolationLevel where
  | readCommitted
  | repeatableRead
  | serializable
  deriving DecidableEq, Repr

/-- `TxnStatus`. -/
inductive TxnStatus where
  | active
  | committed
  | aborted
  deriving DecidableEq, Repr

/-- What a transaction may see: commits up to a timestamp, except those of the
transactions that were running when the snapshot was taken. -/
structure TxnSnapshot where
  visibleUpTo : ℕ
  activeTxns : Finset TransactionId
  deriving DecidableEq

/-- One version of a row. -/
structure RowVersion where
  row : Row
  createdByTxn : ℕ
  createdCommitTs : Option ℕ
  deletedByTxn : Option ℕ
  deletedCommitTs : Option ℕ
  deriving DecidableEq

/-- The version list of a row, newest first. -/
structure VersionedRow where
  versions : List RowVersion
  deriving DecidableEq

/-- The two shapes a stored row has on a page. -/
inductive StoredRow where
  /-- A bare row, as `encode_row` writes it. -/
  | legacy (row : Row)
  /-- A version list. -/
  | versioned (rows : VersionedRow)
  deriving DecidableEq

/-- `UndoRecord`. -/
inductive UndoRecord where
  | pageWrite (pageId : PageId)
  | insertRow (table : String) (rowId : RowId)
  | deleteRow (table : String) (rowId : RowId) (previousBytes : StoredRow)
  | indexInsert (table index : String) (rowId : RowId) (key : List Value)
  | indexDelete (table index : String) (rowId : RowId) (key : List Value)
  deriving DecidableEq

/-- The records a commit keeps for the purge. -/
def UndoRecord.isDeleteRow : UndoRecord → Bool
  | .deleteRow .. => true
  | _ => false

/-- `PageWriteSetEntry`. -/
structure PageWriteSetEntry (P : Type) where
  pageId : PageId
  beforeImage : Option P
  afterImage : P
  deriving DecidableEq

/-- `TxnWriteSet`. -/
structure TxnWriteSet (P : Type) where
  touchedPages : Finset PageId
  pageWrites : List (PageWriteSetEntry P)
  deriving DecidableEq

/-- `TxnState`: what the manager knows of one transaction. -/
structure TxnState (P : Type) where
  id : TransactionId
  isolationLevel : IsolationLevel
  status : TxnStatus
  terminalError : Option String
  startTs : ℕ
  commitTs : Option ℕ
  snapshot : TxnSnapshot
  writeSet : TxnWriteSet P
  undoRecords : List UndoRecord
  purgeRecords : List UndoRecord
  deriving DecidableEq

end RustSql.V2
