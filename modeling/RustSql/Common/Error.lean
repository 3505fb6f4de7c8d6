import Mathlib.Data.List.Infix

/-!
# Database errors

The error type every layer of the engine returns. The lock layer is driven by
the text of these errors: whether a caller waits, gives up or cleans up is
decided by searching the rendered message.
-/

namespace RustSql

/-- The error kinds of `common/error.rs`; each carries its message. -/
inductive DbError where
  /-- Errors of the SQL front end. -/
  | sql (message : String)
  /-- Errors of the planner. -/
  | plan (message : String)
  /-- Errors of a storage engine. -/
  | storage (message : String)
  /-- Errors of transaction control and locking. -/
  | txn (message : String)
  /-- An operating-system call failed. -/
  | io (message : String)
  /-- A payload could not be decoded. -/
  | serde (message : String)
  deriving DecidableEq, Repr

/-- The text `Display` prints: the kind's prefix and the message. -/
def DbError.display : DbError → String
  | .sql message => s!"sql error: {message}"
  | .plan message => s!"plan error: {message}"
  | .storage message => s!"storage error: {message}"
  | .txn message => s!"transaction error: {message}"
  | .io message => s!"io error: {message}"
  | .serde message => s!"serde error: {message}"

/-- `str::contains`: the needle starts at some position of the text. -/
def containsText (text needle : String) : Bool :=
  text.toList.tails.any fun suffix => needle.toList.isPrefixOf suffix

/-- The message names a deadlock, whatever else it says: a table whose name
contains the word makes every lock error of that table one. -/
def DbError.isDeadlock (error : DbError) : Bool := containsText error.display "deadlock"

/-- A sequence of fallible steps that succeeded ran its first step to a value. -/
theorem except_bind_ok {α β : Type} {x : Except DbError α} {f : α → Except DbError β} {b : β}
    (h : (x >>= f)=.ok b) : ∃ a, x=.ok a ∧ f a=.ok b := by
  cases x with
  | ok a => exact ⟨a,rfl,h⟩
  | error e => cases h

end RustSql
