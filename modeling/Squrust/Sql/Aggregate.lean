import Squrust.Sql.Executors

/-!
# Aggregation

Groups of rows with equal keys, an accumulator for each aggregate of a group, and
the rows made of them, in the order of the keys.
-/

set_option autoImplicit false

namespace Squrust.Sql

open Squrust.Foundation

open Squrust.Foundation.Exec (own modifyOwn onInner)

/-- What an aggregate has seen. -/
structure Acc where
  count : Nat
  sum : Float64
  sumSeen : Bool
  extreme : Option Value
  distinct : List Value
  gc : Text
  gcSeen : Bool

namespace Acc

def new : Acc := ⟨0, 0, false, none, [], [], false⟩

/-- Take a value that is not NULL, nor one that was there before if those are left out. -/
def take (self : Acc) (func : AggFunc) (v : Value) (sep : Option Text) : Acc :=
  match func with
  | .count | .countStar => { self with count := self.count + 1 }
  | .sum | .avg =>
      match v.asF64 with
      | some n => { self with sum := self.sum + n, sumSeen := true, count := self.count + 1 }
      | none => self
  | .min =>
      if self.extreme.all fun e => v.compare e = some .lt then { self with extreme := some v } else self
  | .max =>
      if self.extreme.all fun e => v.compare e = some .gt then { self with extreme := some v } else self
  | .groupConcat =>
      let gc := if self.gcSeen then self.gc ++ sep.getD [','] else self.gc
      { self with gc := gc ++ v.toDisplayString, gcSeen := true }

def update {E : Type} (self : Acc) (agg : AggExpr E) (v : Value) (sep : Option Text) : Acc :=
  if agg.func = .countStar then { self with count := self.count + 1 }
  else if v.isNull then self
  else if agg.distinct then
    if self.distinct.any fun d => d.eq v then self
    else { self with distinct := self.distinct ++ [v] }.take agg.func v sep
  else self.take agg.func v sep

def finalize (self : Acc) (func : AggFunc) : Value :=
  match func with
  | .count | .countStar => .integer (Int64.ofNat self.count)
  | .sum =>
      if self.sumSeen then
        if self.sum.fract.isZero then .integer self.sum.toInt64 else .real self.sum
      else .null
  | .avg => if 0 < self.count then .real (self.sum / Float64.ofInt self.count) else .null
  | .min | .max => self.extreme.getD .null
  | .groupConcat => if self.gcSeen then .text self.gc else .null

end Acc

structure Group where
  key : List Value
  accs : List Acc
  /-- The first row of the group. -/
  rep : Row
  hasRep : Bool

namespace Group

def new (key : List Value) (nAggs : Nat) (rep : Row) : Group :=
  ⟨key, List.replicate nAggs .new, rep, rep.values ≠ [] || rep.rowId ≠ 0⟩

end Group

def keysEq (a b : List Value) : Bool :=
  a.length = b.length && (a.zip b).all fun (x, y) => x.eq y

namespace AggExec

/-- The executor's expressions, ready to be evaluated. -/
structure Exprs where
  groupBy : List Compute
  aggs : List (AggExpr Compute)
  output : List (OutputCol Compute)
  baseLen : Nat
  having : Option Compute

variable (self : Exprs)

/-- Update the accumulators of a group with a row. -/
def updateAccs (row : Row) : List (AggExpr Compute) → List Acc → Outcome SqlError (List Acc)
  | agg :: aggs, acc :: accs => do
      let v ←
        match agg.arg with
        | some arg => arg row
        | none => pure .null
      let sep ←
        if agg.func = .groupConcat then
          match agg.sep with
          | some e => do pure (some (← e row).toDisplayString)
          | none => pure (some [','])
        else pure none
      return acc.update agg v sep :: (← updateAccs row aggs accs)
  | _, accs => return accs

/-- Put a row into the group of its key. -/
def addRow (groups : List Group) (row : Row) : Outcome SqlError (List Group) := do
  let key ← self.groupBy.mapM fun e => e row
  match groups.findIdx? fun g => keysEq g.key key with
  | some i =>
      let group ← Outcome.orPanic "index out of bounds" groups[i]?
      return groups.set i { group with accs := ← updateAccs row self.aggs group.accs }
  | none =>
      let group := Group.new key self.aggs.length row
      return groups ++ [{ group with accs := ← updateAccs row self.aggs group.accs }]

/-- The groups in the order of their keys. Without GROUP BY there is a group even
when there is no row. -/
def groupRows (rows : List Row) : Outcome SqlError (List Group) := do
  let groups ← rows.foldlM (addRow self) []
  if self.groupBy.isEmpty ∧ groups.isEmpty then
    return [Group.new [] self.aggs.length ⟨0, []⟩]
  else return sortBy (fun a b => compareValues a.key b.key) groups

/-- `resize` with NULLs. -/
def resize (values : List Value) (n : Nat) : List Value :=
  values.take n ++ List.replicate (n - values.length) .null

/-- The row of a group, if HAVING keeps it. -/
def outputRow (group : Group) : Outcome SqlError (Option Row) := do
  let finalized := List.zipWith (fun agg acc => acc.finalize agg.func) self.aggs group.accs
  let keep ←
    match self.having with
    | some h => do
        let augmented := resize group.rep.values self.baseLen ++ finalized
        pure (← h ⟨group.rep.rowId, augmented⟩).isTruthy
    | none => pure true
  if keep then
    let values ← self.output.mapM fun col => do
      match col with
      | .agg i => Outcome.orPanic "index out of bounds" finalized[i]?
      | .expr e => if group.hasRep then e group.rep else return .null
    return some ⟨0, values⟩
  else return none

/-- The rows of the groups. -/
def aggregate (rows : List Row) : Outcome SqlError (List Row) := do
  let groups ← groupRows self rows
  return (← groups.mapM (outputRow self)).filterMap id

structure State {σ : Type} (input : Executor σ) where
  input : Option input.State
  produced : Option (List Row)

variable {σ : Type} (input : Executor σ)

def compute (fuel : Nat) : Exec (σ × State input) SqlError (List Row) := do
  let state ← own
  let inner ← Exec.lift (.orPanic "compute called once" state.input)
  modifyOwn fun state => { state with input := none }
  let rows ← drain input inner fuel
  Exec.lift (aggregate self rows)

def next : Pull.Next σ (State input) SqlError Row := fun fuel =>
  nextProduced State.produced (fun produced state => { state with produced })
    (compute self input fuel)

end AggExec

/-! ## Building a plan -/

namespace AggExpr

def map {E F : Type} (f : E → F) (agg : AggExpr E) : AggExpr F :=
  ⟨agg.func, agg.arg.map f, agg.distinct, agg.sep.map f⟩

end AggExpr

def OutputCol.map {E F : Type} (f : E → F) : OutputCol E → OutputCol F
  | .expr e => .expr (f e)
  | .agg i => .agg i

def SortKey.map {E F : Type} (f : E → F) (key : SortKey E) : SortKey F := ⟨f key.expr, key.asc⟩

section Build

variable {σ Query : Type} [Core.PageSource σ] (builtins : Builtins) (params : List Value)

/-- Build the executors of a plan. -/
def build : LogicalPlan Query → Executor σ
  | .dual => ⟨[], Bool, false, DualExec.next⟩
  | .scan _ rootPage columns rowidAlias defaults =>
      ⟨columns, TableScan.State, ⟨Int64.minValue, false⟩,
        TableScan.next rootPage columns rowidAlias defaults⟩
  | .filter input predicate =>
      let inner := build input
      ⟨inner.columns, inner.State, inner.start,
        FilterExec.next inner (evalRow builtins params predicate)⟩
  | .project input exprs columns =>
      let inner := build input
      ⟨columns, inner.State, inner.start,
        ProjectExec.next inner (exprs.map (evalRow builtins params))⟩
  | .nestedLoopJoin left right predicate leftOuter columns =>
      let l := build left
      let r := build right
      ⟨columns, NestedLoopJoin.State l r, ⟨l.start, some r.start, [], false, none, 0, false⟩,
        NestedLoopJoin.next l r (predicate.map (evalRow builtins params)) leftOuter⟩
  | .aggregate input groupBy aggs output columns baseLen having =>
      let inner := build input
      let compute := evalRow builtins params
      ⟨columns, AggExec.State inner, ⟨some inner.start, none⟩,
        AggExec.next ⟨groupBy.map compute, aggs.map (.map compute), output.map (.map compute),
          baseLen, having.map compute⟩ inner⟩
  | .sort input keys =>
      let inner := build input
      ⟨inner.columns, SortExec.State inner, ⟨some inner.start, none⟩,
        SortExec.next inner (keys.map (.map (evalRow builtins params)))⟩
  | .limit input limit offset =>
      let inner := build input
      ⟨inner.columns, LimitExec.State inner, ⟨inner.start, 0, 0⟩, LimitExec.next inner limit offset⟩
  | .distinct input =>
      let inner := build input
      ⟨inner.columns, DistinctExec.State inner, ⟨inner.start, []⟩, DistinctExec.next inner⟩
  | .setOp kind all left right columns =>
      let l := build left
      let r := build right
      ⟨columns, SetOpExec.State l r, ⟨some l.start, some r.start, none⟩,
        SetOpExec.next l r kind all⟩

/-- The executor of a plan has the columns of the plan. -/
theorem columns_build (plan : LogicalPlan Query) :
    (build builtins params plan : Executor σ).columns = plan.columns := by
  induction plan with
  | dual => rfl
  | scan => rfl
  | filter input predicate ih => exact ih
  | project => rfl
  | nestedLoopJoin => rfl
  | aggregate => rfl
  | sort input keys ih => exact ih
  | limit input limit offset ih => exact ih
  | distinct input ih => exact ih
  | setOp => rfl

end Build

end Squrust.Sql
