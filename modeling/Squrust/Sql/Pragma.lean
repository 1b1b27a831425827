import Squrust.Foundation.Text

/-!
# Pragmas

Pragmas are recognised before a text is handed to the SQL parser.
-/

set_option autoImplicit false

namespace Squrust.Sql

open Squrust.Foundation

/-- A parsed `PRAGMA` statement. -/
structure Pragma where
  /-- In lower case, without a schema in front. -/
  name : Text
  /-- The argument in parentheses, without quotes. -/
  arg : Option Text
  /-- What is behind the equals sign, without quotes. -/
  value : Option Text
deriving DecidableEq

namespace Pragma

def unquote (text : Text) : Text :=
  match text, text.getLast? with
  | first :: inner, some last =>
      if inner ≠ [] ∧ (first = '\'' ∧ last = '\'' ∨ first = '"' ∧ last = '"' ∨
        first = '[' ∧ last = ']') then inner.dropLast
      else text
  | _, _ => text

/-- Head, argument and value of what stands behind the word. -/
def split (rest : Text) : Option (Text × Option Text × Option Text) :=
  match Text.splitAtFirst (· = '(') rest with
  | some (head, behind) =>
      -- A closing parenthesis before the opening one does not count.
      match Text.splitAtLast (· = ')') behind with
      | some (arg, _) => some (head, some (unquote (Text.trim arg)), none)
      | none => none
  | none =>
      match Text.splitAtFirst (· = '=') rest with
      | some (head, behind) => some (head, none, some (unquote (Text.trim behind)))
      | none => some (rest, none, none)

/-- Letters, digits and underscores. -/
def isNameChar (c : Char) : Bool :=
  ('a' ≤ c && c ≤ 'z') || ('A' ≤ c && c ≤ 'Z') || Text.isAsciiDigit c || c == '_'

/-- Recognise a pragma. -/
def tryParse (sql : Text) : Option Pragma :=
  let s := Text.trim (Text.trimEndMatches (· = ';') (Text.trim sql))
  if Text.toAsciiLowercase (s.take 6) ≠ "pragma".toList then none
  else
    match s.drop 6 with
    | [] => none
    | next :: _ =>
        if ¬ Text.isAsciiWhitespace next then none
        else
          let rest := Text.trim (s.drop 6)
          if rest = [] ∨ rest.contains ';' then none
          else
            match split rest with
            | none => none
            | some (head, arg, value) =>
                let head := Text.trim head
                let last := ((Text.splitAtLast (· = '.') head).map Prod.snd).getD head
                let name := Text.toAsciiLowercase (Text.trim last)
                if name = [] ∨ ¬ name.all isNameChar then none
                else some ⟨name, arg, value⟩

/-- A pragma that sets the user version: `run_pragma` then calls `set_user_version`. -/
def setsUserVersion (pragma : Pragma) : Bool :=
  pragma.name = "user_version".toList &&
    ((pragma.value.bind fun value => Text.readI64 (Text.trim value)).isSome)

example : tryParse "pragma user_version = 42;".toList =
    some ⟨"user_version".toList, none, some "42".toList⟩ := by decide +kernel

example : tryParse "pragmatic things".toList = none := by decide +kernel

end Pragma

end Squrust.Sql
