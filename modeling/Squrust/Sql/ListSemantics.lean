import Squrust.Foundation.ExactIntegers
import Squrust.Sql.Streams

/-!
# Plans as operations on lists

What a plan means, apart from how it is run: each operator makes a list of rows of
the lists of its inputs (`Denotes`). Draining the executors of a plan gives that
list, if every expression has a value on the rows it meets and the rows are sorted
by keys that have an order (`drained_of_succeeds`).

NULLs are the lowest, before integers, which are before texts, which are before
blobs (`sortOrder`). Sorting compares doubles, and integers of magnitude at most
2^53 are doubles.
-/

set_option autoImplicit false

namespace Squrust.Sql

open Squrust.Foundation

open Squrust.Core (PageId PageData PageSource MapSource Record Rows)

/-! ## The order of sort keys -/

namespace Value

/-- A sort key with an order of its own. -/
inductive Sortable : Value → Prop
  | null : Sortable null
  | integer {i : Int64} (exact' : i.toInt.natAbs ≤ 2 ^ 53) : Sortable (integer i)
  | text (t : Text) : Sortable (text t)
  | blob (b : Bytes) : Sortable (blob b)

def integerPart : Value → Int
  | integer i => i.toInt
  | _ => 0

def textPart : Value → Text
  | text t => t
  | _ => []

def blobPart : Value → Bytes
  | blob b => b
  | _ => []

/-- NULLs, then integers, then texts, then blobs, each in the order of their own. -/
def sortOrder : Value → Value → Ordering :=
  compareLex (compareOn classRank) (compareLex (compareOn integerPart)
    (compareLex (compareOn textPart) (compareOn blobPart)))

instance : Std.TransCmp sortOrder := by
  unfold sortOrder
  infer_instance

/-- ORDER BY compares sort keys in that order. -/
theorem orderKey_eq_sortOrder {a b : Value} (sortableA : a.Sortable) (sortableB : b.Sortable) :
    a.orderKey b = sortOrder a b := by
  have alone (ord : Ordering) : ord.then .eq = ord := by cases ord <;> rfl
  cases sortableA with
  | null =>
      cases sortableB with
      | null => rfl
      | integer _ => rfl
      | text t => rfl
      | blob b => rfl
  | @integer i exactI =>
      cases sortableB with
      | null => rfl
      | @integer j exactJ =>
          have doubles := Float64.partialCmp_ofInt exactI exactJ
          change ((Float64.ofInt i.toInt).partialCmp (Float64.ofInt j.toInt)).getD .eq =
            (Ord.compare i.toInt j.toInt).then .eq
          rw [doubles, alone]
          rfl
      | text t => rfl
      | blob b => rfl
  | text s =>
      cases sortableB with
      | null => rfl
      | integer _ => rfl
      | text t => exact (alone (Ord.compare s t)).symm
      | blob b => rfl
  | blob s =>
      cases sortableB with
      | null => rfl
      | integer _ => rfl
      | text t => rfl
      | blob b => rfl

end Value

/-! ## What a plan means -/

section

variable {Query : Type} (builtins : Builtins) (params : List Value)

/-- The value of an expression on a row where it has one. -/
def valueOf (expr : Expr Query) (row : Row) : Value :=
  ((evalRow builtins params expr row).toOption).getD .null

/-- The condition of a join, if there is one. -/
def condition (predicate : Option (Expr Query)) (row : Row) : Bool :=
  predicate.all fun p => (valueOf builtins params p row).isTruthy

/-- The order of rows by their sort keys: the first key decides, then the others. -/
def rowOrder : List (SortKey (Expr Query)) → Row → Row → Ordering
  | [] => fun _ _ => .eq
  | ⟨expr, asc⟩ :: keys =>
      compareLex (fun a b =>
        if asc then Value.sortOrder (valueOf builtins params expr a) (valueOf builtins params expr b)
        else Value.sortOrder (valueOf builtins params expr b) (valueOf builtins params expr a))
        (rowOrder keys)

/-- The row of a stored record where it can be read. -/
def tableRow (columns : List ColumnInfo) (rowidAlias : Option Nat) (defaults : List Value)
    (entry : Int64 × Record) : Row :=
  ((TableScan.row columns.length rowidAlias defaults entry.1 entry.2.val).toOption).getD
    ⟨entry.1, []⟩

variable (tables : PageId → Rows)

/-- The list of rows a plan means. -/
def Denotes : LogicalPlan Query → List Row → Prop
  | .dual, out => out = [⟨0, []⟩]
  | .scan _ root columns rowidAlias defaults, out =>
      out = (tables root).map (tableRow columns rowidAlias defaults)
  | .filter input predicate, out =>
      ∃ rows, Denotes input rows ∧
        out = rows.filter fun row => (valueOf builtins params predicate row).isTruthy
  | .project input exprs _, out =>
      ∃ rows, Denotes input rows ∧
        out = rows.map fun row => ⟨row.rowId, exprs.map fun e => valueOf builtins params e row⟩
  | .nestedLoopJoin left right predicate leftOuter _, out =>
      ∃ lefts rights, Denotes left lefts ∧ Denotes right rights ∧
        out = lefts.flatMap fun leftRow =>
          let matches_ := (rights.map (NestedLoopJoin.combine leftRow)).filter
            (condition builtins params predicate)
          if leftOuter ∧ matches_ = [] then [NestedLoopJoin.padded right.columns.length leftRow]
          else matches_
  | .sort input keys, out =>
      ∃ rows, Denotes input rows ∧ StablySorted (rowOrder builtins params keys) rows out
  | .limit input limit offset, out =>
      ∃ rows, Denotes input rows ∧
        out = match limit with
          | some l => (rows.drop offset.toNat).take l.toNat
          | none => rows.drop offset.toNat
  | _, _ => False

/-- The plan is made of these operators, every record it scans can be read, every
expression has a value on every row it meets, and sort keys have an order. -/
def Succeeds : LogicalPlan Query → Prop
  | .dual => True
  | .scan _ root columns rowidAlias defaults =>
      ∀ entry ∈ tables root, ∃ row,
        TableScan.row columns.length rowidAlias defaults entry.1 entry.2.val = .ok row
  | .filter input predicate =>
      Succeeds input ∧ ∀ rows, Denotes builtins params tables input rows → ∀ row ∈ rows,
        ∃ v, evalRow builtins params predicate row = .ok v
  | .project input exprs _ =>
      Succeeds input ∧ ∀ rows, Denotes builtins params tables input rows → ∀ row ∈ rows,
        ∀ e ∈ exprs, ∃ v, evalRow builtins params e row = .ok v
  | .nestedLoopJoin left right predicate _ _ =>
      Succeeds left ∧ Succeeds right ∧ ∀ lefts rights,
        Denotes builtins params tables left lefts → Denotes builtins params tables right rights →
        ∀ leftRow ∈ lefts, ∀ rightRow ∈ rights, ∀ p ∈ predicate,
          ∃ v, evalRow builtins params p (NestedLoopJoin.combine leftRow rightRow) = .ok v
  | .sort input keys =>
      Succeeds input ∧ ∀ rows, Denotes builtins params tables input rows → ∀ row ∈ rows,
        ∀ key ∈ keys, ∃ v, evalRow builtins params key.expr row = .ok v ∧ v.Sortable
  | .limit input _ _ => Succeeds input
  | _ => False

end

namespace LogicalPlan

/-- The tables a plan scans. -/
def roots {Query : Type} : LogicalPlan Query → List PageId
  | dual => []
  | scan _ root _ _ _ => [root]
  | filter input _ | project input _ _ | aggregate input _ _ _ _ _ _ | sort input _
  | limit input _ _ | distinct input => input.roots
  | nestedLoopJoin left right _ _ _ | setOp _ _ left right _ => left.roots ++ right.roots

end LogicalPlan

/-! ## The executors -/

section

variable {Query : Type} {builtins : Builtins} {params : List Value}

theorem valueOf_eq {expr : Expr Query} {row : Row} {v : Value}
    (evaluated : evalRow builtins params expr row = .ok v) : valueOf builtins params expr row = v := by
  rw [valueOf, evaluated]
  rfl

theorem evalRow_eq {expr : Expr Query} {row : Row}
    (evaluates : ∃ v, evalRow builtins params expr row = .ok v) :
    evalRow builtins params expr row = .ok (valueOf builtins params expr row) := by
  obtain ⟨v, evaluated⟩ := evaluates
  rw [valueOf_eq evaluated, evaluated]

instance (keys : List (SortKey (Expr Query))) : Std.TransCmp (rowOrder builtins params keys) := by
  induction keys with
  | nil => exact { eq_swap := rfl, isLE_trans := fun _ _ => rfl }
  | cons key keys ih =>
      obtain ⟨expr, asc⟩ := key
      have ascending : Std.TransCmp fun a b =>
          Value.sortOrder (valueOf builtins params expr a) (valueOf builtins params expr b) :=
        { eq_swap := Std.OrientedCmp.eq_swap, isLE_trans := Std.TransCmp.isLE_trans }
      rw [rowOrder]
      cases asc with
      | true =>
          simp only [if_true]
          infer_instance
      | false =>
          simp only [Bool.false_eq_true, if_false]
          have descending := @Std.TransCmp.opposite _ _ ascending
          infer_instance

/-- On sortable keys the executor's comparison is that order. -/
theorem compareKeys_eq_rowOrder {keys : List (SortKey (Expr Query))} {a b : Row}
    (sortable : ∀ key ∈ keys, (valueOf builtins params key.expr a).Sortable ∧
      (valueOf builtins params key.expr b).Sortable) :
    SortExec.compareKeys (keys.map SortKey.asc) (keys.map fun key => valueOf builtins params key.expr a)
      (keys.map fun key => valueOf builtins params key.expr b) = rowOrder builtins params keys a b := by
  induction keys with
  | nil => rfl
  | cons key keys ih =>
      obtain ⟨expr, asc⟩ := key
      obtain ⟨sortableA, sortableB⟩ := sortable _ List.mem_cons_self
      have rest := ih fun key member => sortable key (List.mem_cons_of_mem _ member)
      have first := Value.orderKey_eq_sortOrder sortableA sortableB
      have swapped : (Value.sortOrder (valueOf builtins params expr a)
          (valueOf builtins params expr b)).swap = Value.sortOrder (valueOf builtins params expr b)
            (valueOf builtins params expr a) := Std.OrientedCmp.eq_swap.symm
      simp only [List.map_cons, SortExec.compareKeys, rest, first, swapped, rowOrder, compareLex]
      generalize (if asc = true then _ else _ : Ordering) = ord
      cases ord with
      | lt => rfl
      | eq => rfl
      | gt => rfl

variable {σ : Type} [PageSource σ] [MapSource σ] {seen : View PageId PageData}
  {tables : PageId → Rows}

/-- The rows the join gives for a left row, as a choice between the matches and the
row without one. -/
theorem joined_eq (leftOuter : Bool) (holds : Row → Bool) (width : Nat) (rights : List Row)
    (leftRow : Row) :
    NestedLoopJoin.joined leftOuter holds width rights leftRow =
      (let matches_ := (rights.map (NestedLoopJoin.combine leftRow)).filter holds
      if leftOuter ∧ matches_ = [] then [NestedLoopJoin.padded width leftRow] else matches_) := by
  simp only [NestedLoopJoin.joined, NestedLoopJoin.outerRow]
  by_cases none : (rights.map (NestedLoopJoin.combine leftRow)).filter holds = []
  · have noMatch : (rights.map (NestedLoopJoin.combine leftRow)).any holds = false := by
      rw [List.any_eq_false]
      exact List.filter_eq_nil_iff.mp none
    simp [none, noMatch]
  · have someMatch : (rights.map (NestedLoopJoin.combine leftRow)).any holds = true := by
      obtain ⟨row, member⟩ := List.exists_mem_of_ne_nil _ none
      rw [List.any_eq_true]
      exact ⟨row, List.mem_filter.mp member⟩
    simp [none, someMatch]

/-- A plan that succeeds means one list, and its executors yield that list. -/
theorem yields_of_succeeds {plan : LogicalPlan Query}
    (held : ∀ root ∈ plan.roots, ∃ pages, Core.BTree.Tree seen root (tables root) pages)
    (succeeds : Succeeds builtins params tables plan) :
    ∃ rows, Denotes builtins params tables plan rows ∧
      (∀ other, Denotes builtins params tables plan other → other = rows) ∧
      Executor.Yields (fun store : σ => Core.view store = seen) (build builtins params plan) rows := by
  induction plan with
  | dual => exact ⟨_, rfl, fun _ same => same, DualExec.yields⟩
  | scan table root columns rowidAlias defaults =>
      obtain ⟨pages, tree⟩ := held root List.mem_cons_self
      have all : ((tables root).filter fun entry => decide (Int64.minValue ≤ entry.1)) =
          tables root := by
        rw [List.filter_eq_self]
        exact fun entry _ => decide_eq_true (Int64.minValue_le entry.1)
      have decodes : ∀ entry ∈ tables root,
          TableScan.row columns.length rowidAlias defaults entry.1 entry.2.val =
            .ok (tableRow columns rowidAlias defaults entry) := by
        intro entry member
        obtain ⟨row, decoded⟩ := succeeds entry member
        rw [tableRow, decoded]
        rfl
      have pulled : Executor.Yields (fun store : σ => Core.view store = seen)
          (build builtins params
            (.scan table root columns rowidAlias defaults : LogicalPlan Query)) _ :=
        TableScan.yields tree Int64.minValue decodes
      rw [all] at pulled
      exact ⟨_, rfl, fun _ same => same, pulled⟩
  | filter input predicate ih =>
      obtain ⟨rows, denotes, unique, pulled⟩ := ih held succeeds.1
      refine ⟨_, ⟨rows, denotes, rfl⟩, ?_, FilterExec.yields pulled fun row member => ?_⟩
      · rintro other ⟨rows', denotes', rfl⟩
        rw [unique rows' denotes']
      · exact ⟨_, evalRow_eq (succeeds.2 rows denotes row member), rfl⟩
  | project input exprs columns ih =>
      obtain ⟨rows, denotes, unique, pulled⟩ := ih held succeeds.1
      refine ⟨_, ⟨rows, denotes, rfl⟩, ?_, ProjectExec.yields pulled fun row member => ?_⟩
      · rintro other ⟨rows', denotes', rfl⟩
        rw [unique rows' denotes']
      · rw [List.mapM_map]
        exact Outcome.mapM_eq_ok fun e inExprs =>
          evalRow_eq (succeeds.2 rows denotes row member e inExprs)
  | nestedLoopJoin left right predicate leftOuter columns ihLeft ihRight =>
      obtain ⟨lefts, denotesLeft, uniqueLeft, pulledLeft⟩ :=
        ihLeft (fun root member => held root (List.mem_append_left _ member)) succeeds.1
      obtain ⟨rights, denotesRight, uniqueRight, pulledRight⟩ :=
        ihRight (fun root member => held root (List.mem_append_right _ member)) succeeds.2.1
      have evaluates : ∀ leftRow ∈ lefts, ∀ rightRow ∈ rights,
          NestedLoopJoin.keeps (predicate.map (evalRow builtins params))
            (NestedLoopJoin.combine leftRow rightRow) =
          .ok (condition builtins params predicate (NestedLoopJoin.combine leftRow rightRow)) := by
        intro leftRow inLefts rightRow inRights
        cases predicate with
        | none => rfl
        | some p =>
            have evaluated := evalRow_eq (succeeds.2.2 lefts rights denotesLeft denotesRight leftRow
              inLefts rightRow inRights p rfl)
            rw [Option.map_some, NestedLoopJoin.keeps, evaluated]
            rfl
      have pulled : Executor.Yields _
          (build builtins params (.nestedLoopJoin left right predicate leftOuter columns) : Executor σ)
          _ := NestedLoopJoin.yields pulledLeft pulledRight evaluates
      refine ⟨_, ⟨lefts, rights, denotesLeft, denotesRight, rfl⟩, ?_, ?_⟩
      · rintro other ⟨lefts', rights', denotesLeft', denotesRight', rfl⟩
        rw [uniqueLeft lefts' denotesLeft', uniqueRight rights' denotesRight']
      · rwa [funext (joined_eq leftOuter _ _ rights), columns_build] at pulled
  | sort input keys ih =>
      obtain ⟨rows, denotes, unique, pulled⟩ := ih held succeeds.1
      have evaluates := succeeds.2 rows denotes
      have sortable : ∀ row ∈ rows, ∀ key ∈ keys, (valueOf builtins params key.expr row).Sortable := by
        intro row member key inKeys
        obtain ⟨v, evaluated, sortable⟩ := evaluates row member key inKeys
        rwa [valueOf_eq evaluated]
      have keyValues : ∀ row ∈ rows,
          ((keys.map (SortKey.map (evalRow builtins params))).mapM fun k => k.expr row) =
            .ok (keys.map fun key => valueOf builtins params key.expr row) := by
        intro row member
        rw [List.mapM_map]
        refine Outcome.mapM_eq_ok fun key inKeys => ?_
        obtain ⟨v, evaluated, _⟩ := evaluates row member key inKeys
        exact evalRow_eq ⟨v, evaluated⟩
      have pulled' : Executor.Yields _ (build builtins params (.sort input keys) : Executor σ) _ :=
        SortExec.yields pulled keyValues
      have same : sortBy (fun a b => SortExec.compareKeys
            ((keys.map (SortKey.map (evalRow builtins params))).map SortKey.asc)
            (keys.map fun key => valueOf builtins params key.expr a)
            (keys.map fun key => valueOf builtins params key.expr b)) rows =
          sortBy (rowOrder builtins params keys) rows := by
        refine sortBy_congr fun a inA b inB => ?_
        rw [List.map_map]
        exact compareKeys_eq_rowOrder fun key inKeys =>
          ⟨sortable a inA key inKeys, sortable b inB key inKeys⟩
      rw [same] at pulled'
      refine ⟨_, ⟨rows, denotes, stablySorted_sortBy rows⟩, ?_, pulled'⟩
      rintro other ⟨rows', denotes', sorted⟩
      rw [unique rows' denotes'] at sorted
      exact sorted.unique (stablySorted_sortBy rows)
  | limit input limit offset ih =>
      obtain ⟨rows, denotes, unique, pulled⟩ := ih held succeeds
      refine ⟨_, ⟨rows, denotes, rfl⟩, ?_, ?_⟩
      · rintro other ⟨rows', denotes', rfl⟩
        rw [unique rows' denotes']
      · have limited := @LimitExec.yields σ _ _ limit offset _ _ pulled 0 0
        cases limit with
        | none => exact limited
        | some l => exact limited
  | aggregate => exact succeeds.elim
  | distinct => exact succeeds.elim
  | setOp => exact succeeds.elim

/-- **Draining a plan.** The source holds a tree of rows for every table the plan
scans. If the plan succeeds it means one list of rows, and taking every row the
executors give is taking the rows of that list. -/
theorem drained_of_succeeds {plan : LogicalPlan Query}
    (held : ∀ root ∈ plan.roots, ∃ pages, Core.BTree.Tree seen root (tables root) pages)
    (succeeds : Succeeds builtins params tables plan) {store : σ} (same : Core.view store = seen) :
    ∃ rows, Denotes builtins params tables plan rows ∧
      (∀ other, Denotes builtins params tables plan other → other = rows) ∧
      ∃ after, Exec.Returns (Pull.collectAll (build builtins params plan : Executor σ).next)
        (store, (build builtins params plan : Executor σ).start) rows after := by
  obtain ⟨rows, denotes, unique, pulled⟩ := @yields_of_succeeds Query builtins params σ _ _ seen tables plan
    held succeeds
  obtain ⟨state, collected⟩ := pulled.collect
  obtain ⟨store', _, returns⟩ := collected store same
  exact ⟨rows, denotes, unique, _, returns⟩

end

/-- A scan, its column and its row id, in descending order of the row id, and cut off. -/
def onePlan (root : PageId) : LogicalPlan Empty :=
  .limit (.sort (.project (.scan [] root [⟨['a'], none, none⟩] none [.integer 7])
    [.column 0, .rowId] []) [⟨.column 1, false⟩]) (some 5) 0

theorem onePlan_denotes {builtins : Builtins} {tables : PageId → Rows} {root : PageId}
    {record : Record} (bytes : record.val = [1, 2, 3, 4]) (rows : tables root = [(-3, record)]) :
    Succeeds builtins [] tables (onePlan root) ∧
      Denotes builtins [] tables (onePlan root) [⟨-3, [.integer 7, .integer (-3)]⟩] := by
  have decoded : TableScan.row 1 none [.integer 7] (-3) record.val = .ok ⟨-3, [.integer 7]⟩ := by
    rw [bytes]
    decide +kernel
  have scanned : (tables root).map (tableRow [⟨['a'], none, none⟩] none [.integer 7]) =
      [⟨-3, [.integer 7]⟩] := by
    rw [rows, List.map_singleton, tableRow]
    exact congrArg (fun outcome : Outcome SqlError Row => [(outcome.toOption).getD ⟨-3, []⟩]) decoded
  refine ⟨⟨⟨?_, ?_⟩, ?_⟩, ?_⟩
  · intro entry member
    rw [rows, List.mem_singleton] at member
    subst member
    exact ⟨_, decoded⟩
  · rintro _ rfl row member e inExprs
    rw [scanned, List.mem_singleton] at member
    subst member
    rcases List.mem_pair.mp inExprs with rfl | rfl
    · exact ⟨_, rfl⟩
    · exact ⟨_, rfl⟩
  · rintro _ ⟨_, rfl, rfl⟩ row member key inKeys
    rw [scanned, List.map_singleton, List.mem_singleton] at member
    rw [List.mem_singleton] at inKeys
    subst member inKeys
    exact ⟨.integer (-3), rfl, .integer (by decide)⟩
  · refine ⟨[⟨-3, [.integer 7, .integer (-3)]⟩], ⟨_, ⟨_, rfl, rfl⟩, ?_⟩, by decide⟩
    rw [scanned]
    exact ⟨.refl _, List.pairwise_singleton _ _, fun _ => rfl⟩

/-- Draining that plan on a tree in memory. -/
theorem drained_of_succeeds_onePlan :
    ∃ (root : PageId) (store : Core.MemStore) (after : _),
      Exec.Returns (Pull.collectAll (build .bare [] (onePlan root) : Executor Core.MemStore).next)
        (store, (build .bare [] (onePlan root) : Executor Core.MemStore).start)
        [⟨-3, [.integer 7, .integer (-3)]⟩] after := by
  obtain ⟨root, created, replies, after, creation, run, fit⟩ := Core.BTree.fourCalls_return
  have empty := Core.BTree.create_ok Core.MemStore.new_inUse creation
    (Core.BTree.tracked_calls _ _ run fit)
  obtain ⟨entries, pages, tree, replayed⟩ := Core.BTree.calls_refine empty run fit
  have rows : entries = [(-3, ⟨[1, 2, 3, 4], by decide⟩)] := by
    have lookups : ∀ rowid, Entries.lookup rowid entries =
        Entries.lookup rowid [(-3, ⟨[1, 2, 3, 4], by decide⟩)] := by
      intro rowid
      apply Option.map_injective Subtype.val_injective
      have same := congrFun (congrArg Prod.fst replayed) rowid
      change _ = Option.map Subtype.val (Entries.lookup rowid entries) at same
      rw [← same]
      by_cases negative : rowid = -3
      · rw [negative]
        decide
      · by_cases five : rowid = 5
        · rw [five]
          decide
        · simp [Core.replay, Core.BTree.fourCalls, Core.Call.update, Entries.lookup, negative, five,
            Ne.symm negative, Core.BTree.mapOf]
    refine ascending_ext tree.ascending (List.pairwise_singleton _ _) fun rowid record => ?_
    rw [← Entries.lookup_eq_some_iff tree.ascending, lookups,
      Entries.lookup_eq_some_iff (List.pairwise_singleton _ _)]
  obtain ⟨succeeds, denotes⟩ := @onePlan_denotes .bare (fun _ => entries) root _ rfl rows
  have held : ∀ other ∈ (onePlan root).roots,
      ∃ pages, Core.BTree.Tree (Core.view after.sink) other entries pages := by
    intro other member
    obtain rfl := List.mem_singleton.mp member
    exact ⟨pages, tree⟩
  obtain ⟨_, _, unique, final, returns⟩ := @drained_of_succeeds Empty .bare [] Core.MemStore _ _
    (Core.view after.sink) (fun _ => entries) (onePlan root) held succeeds after.sink rfl
  rw [← unique _ denotes] at returns
  exact ⟨root, after.sink, final, returns⟩

end Squrust.Sql
