import RustSql.Base.Effect
import RustSql.Sql.Schema
import RustSql.V2.TxTypes

/-!
# The storage engine traits

What the executor asks of a storage engine. Every call may change the engine's state and
may fail, also the ones that only read.
-/

namespace RustSql.Engine

open RustSql.Sql RustSql.V2

/-- `StorageEngine`: the calls of `CatalogStore`, `TableStore`, `IndexStore` and
`TransactionManager` that the executor makes, on engines with states in `σ`. -/
class StorageEngine (σ : Type) where
  createSchema : TransactionId → Schema → Eff σ Unit
  getSchema : TransactionId → String → Eff σ (Option Schema)
  listSchemas : TransactionId → Eff σ (List Schema)
  insertRow : TransactionId → String → Row → Eff σ RowId
  getRow : TransactionId → String → RowId → Eff σ (Option Row)
  scanRows : TransactionId → String → Eff σ (List (RowId × Row))
  deleteRow : TransactionId → String → RowId → Eff σ Unit
  updateRow : TransactionId → String → RowId → Row → Eff σ Unit
  updateRowWithColumns : TransactionId → String → RowId → Row → List String → Eff σ Unit
  createIndex : TransactionId → String → IndexMeta → Eff σ Unit
  listAllIndexes : TransactionId → String → Eff σ (List IndexMeta)
  begin' : Eff σ TransactionId
  beginWithIsolation : IsolationLevel → Eff σ TransactionId
  commit : TransactionId → Eff σ Unit
  rollback : TransactionId → Eff σ Unit
  savepoint : TransactionId → String → Eff σ Unit
  rollbackToSavepoint : TransactionId → String → Eff σ Unit
  releaseSavepoint : TransactionId → String → Eff σ Unit
  caseSensitiveLike : σ → Bool

/-- `rposition` of a savepoint's name: the innermost savepoint of that name. -/
def innermost (savepoints : List String) (name : String) : Option ℕ :=
  ((savepoints.findIdxs fun savepoint => eqIgnoreAsciiCase savepoint name)).getLast?

end RustSql.Engine
