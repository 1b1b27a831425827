import Squrust.Foundation.Triples
import Squrust.Sql.Aggregate
import Squrust.Sql.QueryShapes

/-!
# Rows have the columns that are read

The operators of a well-indexed plan are given rows with at least the columns that are named, so
no expression finds its column missing. The rows of a scan have them because short records are
filled up with the defaults (`TableScan.row_wide`), those of a join because both sides have them.

What the pages hold does not matter: a record may be cut short, or have values too many. Functions
are taken as they come, but do not complain of columns.
-/

set_option autoImplicit false

namespace Squrust.Sql

open Squrust.Foundation

open Squrust.Foundation.Exec (Ensures)

/-- An expression has not found a column in its row. -/
def missesColumn : Fault SqlError → Bool
  | .error (.type message) => "column index ".toList.isPrefixOf message
  | _ => false

/-- The fault of something else. -/
def Elsewhere (fault : Fault SqlError) : Prop := missesColumn fault = false

theorem Elsewhere.outOfFuel : Elsewhere .outOfFuel := rfl

/-- No function complains of a column. -/
def Builtins.NoColumns (builtins : Builtins) : Prop :=
  ∀ name args, (builtins.function name args).Ensures Elsewhere fun _ => True

/-! ## Evaluation -/

section

variable {Query : Type} {builtins : Builtins} {env : Env} {width : Nat}

theorem negI64_elsewhere (i : Int64) : (negI64 i).Ensures Elsewhere fun _ => True := by
  unfold negI64
  split
  · exact rfl
  · trivial

theorem divI64_elsewhere (x y : Int64) : (divI64 x y).Ensures Elsewhere fun _ => True := by
  unfold divI64
  split
  · exact rfl
  · split
    · exact rfl
    · trivial

theorem remI64_elsewhere (x y : Int64) : (remI64 x y).Ensures Elsewhere fun _ => True := by
  unfold remI64
  split
  · exact rfl
  · split
    · exact rfl
    · trivial

theorem evalUnary_elsewhere (op : UnOp) (v : Value) : (evalUnary op v).Ensures Elsewhere fun _ => True := by
  cases op with
  | not => trivial
  | neg =>
      cases v with
      | integer i => exact (negI64_elsewhere i).bind fun _ _ => trivial
      | _ => trivial

theorem evalArithmetic_elsewhere (op : BinOp) (l r : Value) :
    (evalArithmetic op l r).Ensures Elsewhere fun _ => True := by
  unfold evalArithmetic
  split
  · trivial
  · refine .bind (.orErr (fun _ => rfl) fun _ _ => trivial) fun x _ => ?_
    refine .bind (.orErr (fun _ => rfl) fun _ _ => trivial) fun y _ => ?_
    split
    · trivial
    · trivial
    · trivial
    · split
      · trivial
      · split
        · exact (divI64_elsewhere _ _).bind fun _ _ => trivial
        · trivial
    · split
      · trivial
      · split
        · exact (remI64_elsewhere _ _).bind fun _ _ => trivial
        · trivial

theorem evalBinary_elsewhere (op : BinOp) (l r : Value) :
    (evalBinary op l r).Ensures Elsewhere fun _ => True := by
  have compares : ∀ op : BinOp,
      (if l.isNull ∨ r.isNull then .ok .null
        else do
          let ord ← Outcome.orErr (.type "incomparable values".toList) (l.compare r)
          return .boolean (op.holds ord) : Outcome SqlError Value).Ensures Elsewhere fun _ => True := by
    intro op
    split
    · trivial
    · exact .bind (.orErr (fun _ => rfl) fun _ _ => trivial) fun _ _ => trivial
  cases op with
  | and | or =>
      rw [evalBinary]
      split
      all_goals trivial
  | eq | notEq | lt | ltEq | gt | gtEq => exact compares _
  | concat =>
      rw [evalBinary]
      split
      · trivial
      · trivial
  | add | sub | mul | div | mod =>
      rw [evalBinary]
      exact evalArithmetic_elsewhere _ l r

section

variable (quiet : builtins.NoColumns) (wide : width ≤ env.values.length)
include quiet wide

mutual

/-- An expression finds the columns it reads in a row that is wide enough. -/
theorem eval_elsewhere {e : Expr Query} (within : e.Within width) :
    (eval builtins env e).Ensures Elsewhere fun _ => True := by
  cases e with
  | literal | rowId => trivial
  | column i =>
      refine .orErr (fun missing => ?_) fun _ _ => trivial
      have present : i < env.values.length := lt_of_lt_of_le (show i < width from within) wide
      exact absurd (List.getElem?_eq_none_iff.mp missing) (not_le.mpr present)
  | param i => exact .orErr (fun _ => rfl) fun _ _ => trivial
  | binary op left right =>
      rw [eval]
      refine (eval_elsewhere within.1).bind fun l _ => ?_
      exact (eval_elsewhere within.2).bind fun r _ => evalBinary_elsewhere op l r
  | unary op expr =>
      rw [eval]
      exact (eval_elsewhere (e := expr) within).bind fun v _ => evalUnary_elsewhere op v
  | isNull expr negated =>
      rw [eval]
      exact (eval_elsewhere (e := expr) within).bind fun _ _ => trivial
  | cast expr ty =>
      rw [eval]
      exact (eval_elsewhere (e := expr) within).bind fun _ _ => trivial
  | like expr pattern negated =>
      rw [eval]
      refine (eval_elsewhere within.1).bind fun v _ => ?_
      refine (eval_elsewhere within.2).bind fun p _ => ?_
      split
      · trivial
      · trivial
  | inList expr list negated =>
      rw [eval]
      refine (eval_elsewhere within.1).bind fun v _ => ?_
      split
      · trivial
      · exact (evalIn_elsewhere v within.2).bind fun _ _ => trivial
  | function name args =>
      rw [eval]
      exact (@evalArgs_elsewhere args within).bind fun values _ => quiet name values
  | case operand whens elseResult =>
      obtain ⟨inOperand, inWhens, inElse⟩ := within
      cases elseResult with
      | none =>
          have given : ∀ matched : Option Value, (match matched with
              | some result => return result
              | none => return .null : Outcome SqlError Value).Ensures Elsewhere fun _ => True := by
            intro matched
            cases matched with
            | some result => trivial
            | none => trivial
          cases operand with
          | none =>
              simp only [eval]
              exact (evalWhens_elsewhere none inWhens).bind fun matched _ => given matched
          | some operand =>
              simp only [eval]
              refine (eval_elsewhere (e := operand) inOperand).bind fun v _ => ?_
              exact (evalWhens_elsewhere (some v) inWhens).bind fun matched _ => given matched
      | some otherwise =>
          have given : ∀ matched : Option Value, (match matched with
              | some result => return result
              | none => eval builtins env otherwise : Outcome SqlError Value).Ensures Elsewhere
              fun _ => True := by
            intro matched
            cases matched with
            | some result => trivial
            | none => exact eval_elsewhere (e := otherwise) inElse
          cases operand with
          | none =>
              simp only [eval]
              exact (evalWhens_elsewhere none inWhens).bind fun matched _ => given matched
          | some operand =>
              simp only [eval]
              refine (eval_elsewhere (e := operand) inOperand).bind fun v _ => ?_
              exact (evalWhens_elsewhere (some v) inWhens).bind fun matched _ => given matched
  | scalarSubquery | exists_ | inSubquery => exact rfl
termination_by structural e

theorem evalArgs_elsewhere {args : List (Expr Query)} (within : ListWithin width args) :
    (evalArgs builtins env args).Ensures Elsewhere fun _ => True := by
  cases args with
  | nil => trivial
  | cons arg rest =>
      rw [evalArgs]
      refine (eval_elsewhere within.1).bind fun v _ => ?_
      exact (evalArgs_elsewhere within.2).bind fun _ _ => trivial
termination_by structural args

theorem evalIn_elsewhere {list : List (Expr Query)} (v : Value) (within : ListWithin width list) :
    (evalIn builtins env v list).Ensures Elsewhere fun _ => True := by
  cases list with
  | nil => trivial
  | cons item rest =>
      rw [evalIn]
      refine (eval_elsewhere within.1).bind fun w _ => ?_
      split
      · trivial
      · exact evalIn_elsewhere v within.2
termination_by structural list

theorem evalWhens_elsewhere {whens : List (Expr Query × Expr Query)} (operand : Option Value)
    (within : WhensWithin width whens) :
    (evalWhens builtins env operand whens).Ensures Elsewhere fun _ => True := by
  cases whens with
  | nil => trivial
  | cons branch rest =>
      obtain ⟨cond, result⟩ := branch
      rw [evalWhens]
      refine (eval_elsewhere within.1.1).bind fun v _ => ?_
      have taken : ∀ taken : Bool,
          (if taken then do return some (← eval builtins env result)
            else evalWhens builtins env operand rest :
            Outcome SqlError (Option Value)).Ensures Elsewhere fun _ => True := by
        intro taken
        cases taken with
        | true => exact (eval_elsewhere within.1.2).bind fun _ _ => trivial
        | false => exact evalWhens_elsewhere operand within.2
      exact taken _
termination_by structural whens

end

end

end

/-! ## Records -/

theorem sliceFrom_elsewhere (data : Bytes) (start : Nat) :
    (sliceFrom data start).Ensures Elsewhere fun _ => True := by
  unfold sliceFrom
  split
  · trivial
  · exact rfl

theorem need_elsewhere (data : Bytes) (n : Nat) : (need data n).Ensures Elsewhere fun _ => True := by
  unfold need
  split
  · exact rfl
  · trivial

theorem readInt_elsewhere (data : Bytes) (n : Nat) : (readInt data n).Ensures Elsewhere fun _ => True := by
  unfold readInt
  refine (need_elsewhere data n).bind fun _ _ => ?_
  exact .bind (.orPanic rfl fun _ _ => trivial) fun _ _ => trivial

theorem decodeValue_elsewhere (serial : UInt64) (data : Bytes) :
    (decodeValue serial data).Ensures Elsewhere fun _ => True := by
  have whole : ∀ n : Nat, (do return (.integer (← readInt data n), n) :
      Outcome SqlError (Value × Nat)).Ensures Elsewhere fun _ => True :=
    fun n => (readInt_elsewhere data n).bind fun _ _ => trivial
  unfold decodeValue
  refine .ite trivial <| .ite (whole 1) <| .ite (whole 2) <| .ite (whole 3) <| .ite (whole 4) <|
    .ite (whole 6) <| .ite (whole 8) <| .ite (.ite rfl trivial) <| .ite trivial <| .ite trivial <|
    .ite ?_ <| .ite ?_ rfl
  · exact (need_elsewhere data _).bind fun _ _ => trivial
  · refine (need_elsewhere data _).bind fun _ _ => ?_
    split
    · trivial
    · exact rfl

theorem readSerials_elsewhere (data : Bytes) (headerEnd rounds pos : Nat) :
    (readSerials data headerEnd rounds pos).Ensures Elsewhere fun _ => True := by
  induction rounds generalizing pos with
  | zero =>
      unfold readSerials
      split
      · exact rfl
      · trivial
  | succ rounds ih =>
      unfold readSerials
      split
      · refine (sliceFrom_elsewhere data pos).bind fun rest _ => ?_
        refine .bind (.orErr (fun _ => rfl) fun _ _ => trivial) fun read _ => ?_
        exact (ih _).bind fun _ _ => trivial
      · trivial

theorem readValues_elsewhere (data : Bytes) (serials : List UInt64) (body : Nat) :
    (readValues data serials body).Ensures Elsewhere fun _ => True := by
  induction serials generalizing body with
  | nil => trivial
  | cons serial serials ih =>
      unfold readValues
      refine (sliceFrom_elsewhere data body).bind fun rest _ => ?_
      refine (decodeValue_elsewhere serial rest).bind fun read _ => ?_
      exact (ih _).bind fun _ _ => trivial

theorem Row.decode_elsewhere (rowId : Int64) (data : Bytes) :
    (Row.decode rowId data).Ensures Elsewhere fun _ => True := by
  unfold Row.decode
  refine .bind (.orErr (fun _ => rfl) fun _ _ => trivial) fun read _ => ?_
  refine (readSerials_elsewhere data _ _ _).bind fun serials _ => ?_
  exact (readValues_elsewhere data serials _).bind fun _ _ => trivial

end Squrust.Sql
