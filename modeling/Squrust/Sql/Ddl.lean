import Squrust.Sql.Ast
import Squrust.Sql.Eval
import Squrust.Sql.Schema

/-!
# Definitions of tables

What `CREATE TABLE` and `ADD COLUMN` make of a definition: its columns with their
declared types, constraints and defaults. A default that is no literal is NULL.
-/

set_option autoImplicit false

namespace Squrust.Sql

open Squrust.Foundation

variable {Sub : Type} (display : SqlDisplay Sub)

/-- The parts of a name, with dots between them. -/
def objectNameToString (name : List Text) : Text := List.intercalate ['.'] name

/-! ## Literals -/

/-- A digit in base 16. -/
def hexDigit (c : Char) : Option UInt8 :=
  if '0' ≤ c ∧ c ≤ '9' then some (UInt8.ofNat (c.toNat - 48))
  else if 'a' ≤ c ∧ c ≤ 'f' then some (UInt8.ofNat (c.toNat - 87))
  else if 'A' ≤ c ∧ c ≤ 'F' then some (UInt8.ofNat (c.toNat - 55))
  else none

/-- `u8::from_str_radix(_, 16)` of two characters: two digits, or a digit behind a plus. -/
def hexByte (first second : Char) : Option UInt8 :=
  if first = '+' then hexDigit second
  else do return 16 * (← hexDigit first) + (← hexDigit second)

/-- The slices of two bytes, from the left. A slice is a character of two bytes or two of one;
another one cuts a character, or ends behind the text. -/
def hexPairs (literal : Text) : Text → Outcome SqlError Bytes
  | [] => .ok []
  | first :: rest => do
      let invalid : SqlError := .type ("invalid hex literal x'".toList ++ literal ++ ['\''])
      if first.utf8Size = 2 then Outcome.err invalid
      else if first.utf8Size ≠ 1 then .panic "byte index is not a char boundary"
      else
        match rest with
        | [] => .panic "byte index out of bounds"
        | second :: rest =>
            if second.utf8Size ≠ 1 then .panic "byte index is not a char boundary"
            else
              let b ← Outcome.orErr invalid (hexByte first second)
              return b :: (← hexPairs literal rest)

/-- Decode the digits of a blob literal. -/
def decodeHex (s : Text) : Outcome SqlError Bytes :=
  if (Text.toUtf8 s).length % 2 ≠ 0 then Outcome.err (.type "odd-length hex literal".toList)
  else hexPairs s s

def valueFromSql : SqlValue → Outcome SqlError Value
  | .number s =>
      match parseI64 s with
      | some i => .ok (.integer i)
      | none => do
          let r ← Outcome.orErr (.type ("bad number literal ".toList ++ s)) (Float64.parse s)
          return .real r
  | .singleQuotedString s | .doubleQuotedString s | .escapedStringLiteral s => .ok (.text s)
  | .hexStringLiteral s => do return .blob (← decodeHex s)
  | .boolean b => .ok (.boolean b)
  | .null => .ok .null
  | .placeholder s | .other s => Outcome.err (.unsupported ("unsupported literal: ".toList ++ s))

/-- Best-effort evaluation of a literal expression. -/
def literalFromExpr : SqlExpr Sub → Outcome SqlError Value
  | .value v => valueFromSql v
  | .unaryOp .minus expr => do
      match ← literalFromExpr expr with
      | .integer i => do return .integer (← negI64 i)
      | .real r => return .real (-r)
      | other => return other
  | e => Outcome.err (.unsupported ("non-literal default expression: ".toList ++ display.expr e))

/-- A default that is a keyword, which may parse as an identifier or a function. -/
def keywordDefault (expr : SqlExpr Sub) : Option DefaultExpr :=
  let keyword : Option Text :=
    match expr with
    | .identifier id => some (Text.toAsciiUppercase id)
    | .function name _ _ => some (Text.toAsciiUppercase (objectNameToString name))
    | _ => none
  if keyword = some "CURRENT_TIMESTAMP".toList then some .currentTimestamp
  else if keyword = some "CURRENT_DATE".toList then some .currentDate
  else if keyword = some "CURRENT_TIME".toList then some .currentTime
  else none

/-- A `DEFAULT`. What is no literal and no keyword becomes NULL. -/
def defaultFromExpr (expr : SqlExpr Sub) : Outcome SqlError DefaultExpr :=
  match keywordDefault expr with
  | some keyword => .ok keyword
  | none =>
      match literalFromExpr display expr with
      | .ok v => .ok (.value v)
      | .error (.error _) => .ok (.value .null)
      | .error fault => .error fault

/-! ## Columns and tables -/

/-- The column so far, and one option more. -/
def columnOption (column : Column) : ColumnOption Sub → Outcome SqlError Column
  | .notNull => .ok { column with notNull := true }
  | .unique true => .ok { column with primaryKey := true }
  | .unique false => .ok { column with unique := true }
  | .default expr => do return { column with default := some (← defaultFromExpr display expr) }
  | .other _ => .ok column

def columnFromAst (col : ColumnDef Sub) : Outcome SqlError Column :=
  col.options.foldlM (columnOption display)
    ⟨col.name, col.dataType, SqlType.affinityFromDecl col.dataType, false, false, false, none⟩

/-- The first INTEGER PRIMARY KEY among the columns, which begin at an index. -/
def findAlias (columns : List Column) : Option Nat :=
  columns.findIdx? fun column => column.primaryKey && column.sqlType = .integer

theorem findAlias_inRange (columns : List Column) : ∀ a ∈ findAlias columns, a < columns.length := by
  intro a found
  exact (List.findIdx?_eq_some_iff_findIdx_eq.mp found).1

/-- A table as it is defined; its root page is filled in by the caller. -/
def tableFromAst (ct : CreateTable Sub) (sql : Text) : Outcome SqlError Table := do
  let columns ← ct.columns.mapM (columnFromAst display)
  return ⟨objectNameToString ct.name, columns, 0, findAlias columns, sql, findAlias_inRange columns⟩

/-- An index; it is kept in memory only. -/
structure Index where
  name : Text
  table : Text
  columns : List Text
  unique : Bool
  sql : Text
deriving DecidableEq

def indexColumn : SqlExpr Sub → Outcome SqlError Text
  | .identifier id => .ok id
  | e => Outcome.err (.unsupported
      ("index on expression `".toList ++ display.expr e ++ "` is not supported".toList))

def indexFromAst (ci : CreateIndex Sub) (sql : Text) : Outcome SqlError Index := do
  let name ← Outcome.orErr (.schema "index requires a name".toList) ci.name
  let columns ← ci.columns.mapM (indexColumn display)
  return ⟨objectNameToString name, objectNameToString ci.tableName, columns, ci.unique, sql⟩

end Squrust.Sql
