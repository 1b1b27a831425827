import Squrust.Core.Page
import Squrust.Sql.Value

/-!
# Tables and columns

The schema as the catalog keeps it.
-/

set_option autoImplicit false

namespace Squrust.Sql

open Squrust.Foundation

open Squrust.Core (PageId)

/-- A column's `DEFAULT`. The keywords are evaluated for each new row. -/
inductive DefaultExpr where
  | value (v : Value)
  | currentTimestamp
  | currentDate
  | currentTime
deriving DecidableEq

structure Column where
  name : Text
  /-- The declared type text. -/
  declType : Text
  sqlType : SqlType
  notNull : Bool
  primaryKey : Bool
  unique : Bool
  default : Option DefaultExpr
deriving DecidableEq

structure Table where
  name : Text
  columns : List Column
  /-- Root page of the b-tree of the table. -/
  rootPage : PageId
  /-- Index of the `INTEGER PRIMARY KEY` column, which stands for the row id. -/
  rowidAlias : Option Nat
  /-- The text of the `CREATE TABLE`. -/
  sql : Text
  aliasInRange : ∀ a ∈ rowidAlias, a < columns.length
deriving DecidableEq

namespace Table

def columnIndex (table : Table) (name : Text) : Option Nat :=
  table.columns.findIdx? fun c => Text.toAsciiLowercase c.name = Text.toAsciiLowercase name

/-- The name of the column that stands for the row id. -/
def aliasName (table : Table) : Text :=
  ((table.rowidAlias.bind fun i => table.columns[i]?).map Column.name).getD "rowid".toList

end Table

end Squrust.Sql
