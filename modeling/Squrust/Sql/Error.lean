import Squrust.Core.Page
import Squrust.Sql.Value

/-!
# Errors, and what comes from libraries

The errors of the SQL layer. Reading JSON, letter case outside ASCII and the
functions of the language are taken as they come (`Builtins`): no result depends
on what they compute.
-/

set_option autoImplicit false

namespace Squrust.Sql

open Squrust.Foundation

open Squrust.Core (StorageError)

/-- SQL-layer errors, with their messages. -/
inductive SqlError where
  | parse (message : Text)
  | schema (message : Text)
  | type (message : Text)
  | constraint (message : Text)
  | storage (error : StorageError)
  | notFound (message : Text)
  | ambiguous (message : Text)
  | unsupported (message : Text)
deriving DecidableEq

/-- What evaluation uses of libraries, and the functions that can be called. -/
structure Builtins where
  /-- `serde_json::from_str`: the document as it is written, or a message. -/
  jsonFromStr : Text → Except Text Text
  /-- A text as a JSON string. -/
  jsonString : Text → Text
  /-- `to_lowercase` -/
  toLowercase : Text → Text
  /-- `eval_function` -/
  function : Text → List Value → Outcome SqlError Value

/-- Libraries that leave every text as it is and know no function. -/
def Builtins.bare : Builtins where
  jsonFromStr := .ok
  jsonString := id
  toLowercase := id
  function name _ := Outcome.err (.unsupported ("function: ".toList ++ name))

/-- Convert a value for a column of some affinity. -/
def Value.coerceTo (builtins : Builtins) (self : Value) (target : SqlType) : Outcome SqlError Value :=
  if self.isNull then .ok .null
  else
    match target with
    | .blob | .null => .ok self
    | .integer => .ok (self.applyNumeric true)
    | .real => .ok (self.applyNumeric false)
    | .boolean => .ok (.boolean self.isTruthy)
    | .text =>
        match self with
        | .text _ | .blob _ => .ok self
        | other => .ok (.text other.toDisplayString)
    | .json =>
        match self with
        | .json _ => .ok self
        | .text t =>
            match builtins.jsonFromStr t with
            | .ok document => .ok (.json document)
            | .error message => Outcome.err (.type ("invalid JSON: ".toList ++ message))
        | other => .ok (.json (builtins.jsonString other.toDisplayString))

end Squrust.Sql
