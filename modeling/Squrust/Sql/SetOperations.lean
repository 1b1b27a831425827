import Squrust.Foundation.FirstOccurrences
import Squrust.Sql.ListSemantics

/-!
# DISTINCT and set operations

What DISTINCT, UNION, INTERSECT and EXCEPT make of the rows of their inputs, on rows
of NULLs, integers of magnitude at most 2^53, texts and blobs. Equality of such rows
is that of their values, and so is the equality of the order the results are sorted
in; leaving out what was seen keeps first occurrences (`dedup_eq`).
-/

set_option autoImplicit false

namespace Squrust.Sql

open Squrust.Foundation

open Squrust.Foundation.Pull

open Squrust.Foundation.Exec (own modifyOwn onInner)

/-! ## Equality and order of rows -/

namespace Value

variable {a b : Value}

/-- Values of one place in the order are equal. -/
theorem sortOrder_eq_eq_iff (sortableA : a.Sortable) (sortableB : b.Sortable) :
    sortOrder a b = .eq ↔ a = b := by
  constructor
  · intro equal
    obtain ⟨ranks, integers, texts, blobs⟩ : a.classRank = b.classRank ∧
        a.integerPart = b.integerPart ∧ a.textPart = b.textPart ∧ a.blobPart = b.blobPart := by
      simpa only [sortOrder, compareLex, compareOn, Ordering.then_eq_eq, Std.compare_eq_iff_eq]
        using equal
    cases sortableA with
    | null =>
        cases sortableB with
        | null => rfl
        | _ => cases ranks
    | integer _ =>
        cases sortableB with
        | integer _ => rw [Int64.toInt_inj.mp integers]
        | _ => cases ranks
    | text s =>
        cases sortableB with
        | text t => exact congrArg text texts
        | _ => cases ranks
    | blob s =>
        cases sortableB with
        | blob t => exact congrArg blob blobs
        | _ => cases ranks
  · rintro rfl
    exact Std.ReflCmp.compare_self

/-- A NULL is compared with a NULL only. -/
theorem compare_eq_none_or_some (sortableA : a.Sortable) (sortableB : b.Sortable) :
    a.isNull ≠ b.isNull ∧ a.compare b = none ∨
      a.isNull = b.isNull ∧ a.compare b = some (sortOrder a b) := by
  rw [← orderKey_eq_sortOrder sortableA sortableB]
  cases sortableA with
  | null =>
      cases sortableB with
      | null => exact .inr ⟨rfl, rfl⟩
      | _ => exact .inl ⟨Bool.noConfusion, rfl⟩
  | @integer i exactI =>
      cases sortableB with
      | null => exact .inl ⟨Bool.noConfusion, rfl⟩
      | @integer j exactJ =>
          have doubles : (integer i).compare (integer j) = some (Ord.compare i.toInt j.toInt) :=
            Float64.partialCmp_ofInt exactI exactJ
          refine .inr ⟨rfl, ?_⟩
          change (integer i).compare (integer j) =
            some (((integer i).compare (integer j)).getD .eq)
          rw [doubles, Option.getD_some]
      | _ => exact .inr ⟨rfl, rfl⟩
  | text s =>
      cases sortableB with
      | null => exact .inl ⟨Bool.noConfusion, rfl⟩
      | _ => exact .inr ⟨rfl, rfl⟩
  | blob s =>
      cases sortableB with
      | null => exact .inl ⟨Bool.noConfusion, rfl⟩
      | _ => exact .inr ⟨rfl, rfl⟩

/-- `==` is the equality of the order. -/
theorem eq_iff (sortableA : a.Sortable) (sortableB : b.Sortable) : a.eq b = true ↔ a = b := by
  rw [eq, beq_iff_eq]
  obtain ⟨oneNull, compared⟩ | ⟨_, compared⟩ := compare_eq_none_or_some sortableA sortableB
  · refine iff_of_false ?_ fun same => oneNull (congrArg isNull same)
    rw [compared]
    exact fun impossible => nomatch impossible
  · rw [compared, Option.some.injEq, sortOrder_eq_eq_iff sortableA sortableB]

end Value

/-- NULLs, integers of magnitude at most 2^53, texts and blobs. -/
def AllSortable (values : List Value) : Prop := ∀ v ∈ values, v.Sortable

/-- The first column in which two rows differ decides. -/
def columnOrder : List Value → List Value → Ordering := List.compareLex Value.sortOrder

instance transCmp_columnOrder : Std.TransCmp columnOrder :=
  inferInstanceAs (Std.TransCmp (List.compareLex Value.sortOrder))

section Rows

variable {a b : List Value}

theorem AllSortable.head {v : Value} {rest : List Value} (sortable : AllSortable (v :: rest)) :
    v.Sortable := sortable v List.mem_cons_self

theorem AllSortable.tail {v : Value} {rest : List Value} (sortable : AllSortable (v :: rest)) :
    AllSortable rest := fun w member => sortable w (List.mem_cons_of_mem _ member)

/-- Groups compare their keys with `==`. -/
theorem keysEq_iff (sortableA : AllSortable a) (sortableB : AllSortable b) :
    keysEq a b = true ↔ a = b := by
  induction a generalizing b with
  | nil => cases b <;> simp [keysEq]
  | cons x xs ih =>
      cases b with
      | nil => simp [keysEq]
      | cons y ys =>
          have first := Value.eq_iff sortableA.head sortableB.head
          have rest := ih sortableA.tail sortableB.tail
          rw [keysEq, Bool.and_eq_true, decide_eq_true_iff] at rest ⊢
          rw [List.zip_cons_cons, List.all_cons, Bool.and_eq_true, first, List.length_cons,
            List.length_cons, Nat.add_right_cancel_iff, List.cons.injEq, ← rest]
          exact and_left_comm

/-- A NULL is equal to a NULL, so this is the same. -/
theorem rowsEq_eq_keysEq (a b : List Value) : rowsEq a b = keysEq a b := by
  rw [rowsEq, keysEq]
  refine congrArg _ (congrArg (List.all _) (funext ?_))
  rintro ⟨x, y⟩
  cases x <;> cases y <;> rfl

theorem rowsEq_iff (sortableA : AllSortable a) (sortableB : AllSortable b) :
    rowsEq a b = true ↔ a = b := by
  rw [rowsEq_eq_keysEq, keysEq_iff sortableA sortableB]

theorem compareValues_eq (sortableA : AllSortable a) (sortableB : AllSortable b) :
    compareValues a b = columnOrder a b := by
  induction a generalizing b with
  | nil => cases b <;> rfl
  | cons x xs ih =>
      cases b with
      | nil => rfl
      | cons y ys =>
          rw [compareValues, ih sortableA.tail sortableB.tail,
            Value.orderKey_eq_sortOrder sortableA.head sortableB.head, columnOrder,
            List.compareLex_cons_cons]
          cases Value.sortOrder x y with
          | lt => rfl
          | eq => rfl
          | gt => rfl

theorem columnOrder_eq_eq_iff (sortableA : AllSortable a) (sortableB : AllSortable b) :
    columnOrder a b = .eq ↔ a = b := by
  induction a generalizing b with
  | nil => cases b <;> simp [columnOrder, List.compareLex_nil_nil, List.compareLex_nil_cons]
  | cons x xs ih =>
      cases b with
      | nil => simp [columnOrder, List.compareLex_cons_nil]
      | cons y ys =>
          have rest := ih sortableA.tail sortableB.tail
          rw [columnOrder] at rest ⊢
          rw [List.compareLex_cons_cons, Ordering.then_eq_eq, rest,
            Value.sortOrder_eq_eq_iff sortableA.head sortableB.head, List.cons.injEq]

end Rows

/-! ## The operators -/

/-- Every value of the rows has a place in the order. -/
def SortableRows (rows : List Row) : Prop := ∀ row ∈ rows, AllSortable row.values

section Seen

variable {seen : List (List Value)} {rows : List Row}

/-- A row was seen if its values were. -/
theorem any_rowsEq_iff {values : List Value} (sortableSeen : ∀ prev ∈ seen, AllSortable prev)
    (sortable : AllSortable values) :
    (seen.any fun prev => rowsEq prev values) = true ↔ values ∈ seen := by
  rw [List.any_eq_true]
  constructor
  · rintro ⟨prev, member, equal⟩
    rw [rowsEq_iff (sortableSeen prev member) sortable] at equal
    exact equal ▸ member
  · exact fun member => ⟨values, member, (rowsEq_iff sortable sortable).mpr rfl⟩

theorem sortable_seen {row : Row} (sortableSeen : ∀ prev ∈ seen, AllSortable prev)
    (sortable : AllSortable row.values) : ∀ prev ∈ seen ++ [row.values], AllSortable prev := by
  intro prev member
  rcases List.mem_append.mp member with old | new
  · exact sortableSeen prev old
  · rw [List.mem_singleton.mp new]
    exact sortable

/-- **Leaving out what was seen** keeps first occurrences. -/
theorem dedup_eq (sortableSeen : ∀ prev ∈ seen, AllSortable prev) (sortable : SortableRows rows) :
    SetOpExec.dedup seen rows = keepFirst Row.values seen rows := by
  induction rows generalizing seen with
  | nil => rfl
  | cons row rows ih =>
      have first := sortable row List.mem_cons_self
      have rest : SortableRows rows := fun other member => sortable other (List.mem_cons_of_mem _ member)
      by_cases there : row.values ∈ seen
      · rw [SetOpExec.dedup, if_pos ((any_rowsEq_iff sortableSeen first).mpr there),
          keepFirst_cons_of_mem there, ih sortableSeen rest]
      · rw [SetOpExec.dedup, if_neg (mt (any_rowsEq_iff sortableSeen first).mp there),
          keepFirst_cons_of_not_mem there, ih (sortable_seen sortableSeen first) rest]

end Seen

variable {σ : Type} {keeps : σ → Prop}

namespace DistinctExec

variable {input : Executor σ}

theorem yields {inner : input.State} {rows : List Row} {seen : List (List Value)}
    (pulled : Pull.Yields keeps input.next inner rows)
    (sortableSeen : ∀ prev ∈ seen, AllSortable prev) (sortable : SortableRows rows) :
    Pull.Yields keeps (next input) ⟨inner, seen⟩ (keepFirst Row.values seen rows) := by
  have pull {inner after : input.State} {found : Option Row} (seen : List (List Value))
      (gives : Gives keeps input.next inner found after) :
      Gives keeps (fun fuel => onInner State.input (fun inner self => { self with input := inner })
          (input.next fuel)) (⟨inner, seen⟩ : State input) found ⟨after, seen⟩ :=
    @Gives.onInner _ _ _ _ _ _ (⟨inner, seen⟩ : State input) _ State.input
      (fun inner self => { self with input := inner }) _ _ gives
  induction pulled generalizing seen with
  | done last => exact .done (.of_succ (.bind (pull seen last) (.pure _ _)))
  | @item inner after row rows first rest ih =>
      have sortableRow := sortable row List.mem_cons_self
      have sortableRest : SortableRows rows :=
        fun other member => sortable other (List.mem_cons_of_mem _ member)
      by_cases there : row.values ∈ seen
      · have dropped := (any_rowsEq_iff sortableSeen sortableRow).mpr there
        rw [keepFirst_cons_of_mem there]
        refine (ih sortableSeen sortableRest).silent fun _ _ gives => ?_
        refine .of_succ (.bind (pull seen first) (.of_eq (fun fuel store => ?_) gives))
        simp only [Exec.own_bind, dropped, if_true]
      · have kept := Bool.eq_false_of_not_eq_true (mt (any_rowsEq_iff sortableSeen sortableRow).mp there)
        rw [keepFirst_cons_of_not_mem there]
        refine .item (.of_succ (.bind (pull seen first) (.of_eq (fun fuel store => ?_) (.pure _ _))))
          (ih (sortable_seen sortableSeen sortableRow) sortableRest)
        simp only [Exec.own_bind, kept, Bool.false_eq_true, if_false, Exec.modifyOwn_bind]

end DistinctExec

namespace SetOpExec

variable {left right : Executor σ} {kind : SetOpKind} {all : Bool}

theorem yields {l : left.State} {r : right.State} {lrows rrows : List Row}
    (pulledLeft : Pull.Yields keeps left.next l lrows)
    (pulledRight : Pull.Yields keeps right.next r rrows) :
    Pull.Yields keeps (next left right kind all) ⟨some l, some r, none⟩
      (combine kind all lrows rrows) := by
  have start : ∀ fuel store, compute left right kind all fuel (store, ⟨some l, some r, none⟩) =
      (drain left l fuel >>= fun lrows => do
        modifyOwn fun self => { self with right := none }
        let rrows ← drain right r fuel
        return combine kind all lrows rrows)
        (store, (⟨none, some r, none⟩ : State left right)) := fun _ _ => rfl
  exact yields_computed (fun _ _ => rfl) rfl <| .of_eq start <| .bind (gives_drain pulledLeft _) <|
    .modifyOwn <| .bind (gives_drain pulledRight _) (.pure _ _)

end SetOpExec

/-! ## The results -/

/-- Whether a row is in the result, by whether it is in the left and in the right input. -/
def SetOpKind.Holds : SetOpKind → Prop → Prop → Prop
  | union, inLeft, inRight => inLeft ∨ inRight
  | intersect, inLeft, inRight => inLeft ∧ inRight
  | except, inLeft, inRight => inLeft ∧ ¬ inRight

/-- The rows ascend, no two have the same values, and these are the values of the set. -/
structure IsSetResult (kind : SetOpKind) (lrows rrows out : List Row) : Prop where
  ascending : out.Pairwise fun a b => columnOrder a.values b.values = .lt
  distinct : (out.map Row.values).Nodup
  mem_iff : ∀ values, values ∈ out.map Row.values ↔
    kind.Holds (values ∈ lrows.map Row.values) (values ∈ rrows.map Row.values)

section Results

variable {rows lrows rrows : List Row} {kind : SetOpKind} {all : Bool}

instance transCmp_rowValues : Std.TransCmp fun a b : Row => columnOrder a.values b.values where
  eq_swap := Std.OrientedCmp.eq_swap
  isLE_trans := Std.TransCmp.isLE_trans

/-- Rows without duplicates, in order: they ascend strictly, and no row is lost. -/
theorem sortRows_dedup (sortable : SortableRows rows) :
    (SetOpExec.sortRows (SetOpExec.dedup [] rows)).Pairwise
        (fun a b => columnOrder a.values b.values = .lt) ∧
      ∀ values, values ∈ (SetOpExec.sortRows (SetOpExec.dedup [] rows)).map Row.values ↔
        values ∈ rows.map Row.values := by
  have firsts : SetOpExec.dedup [] rows = firstOccurrences Row.values rows := by
    rw [dedup_eq (List.forall_mem_nil _) sortable, keepFirst_nil]
  have sortableFirsts : SortableRows (firstOccurrences Row.values rows) :=
    fun row member => sortable row (firstOccurrences_subset member)
  have sorted : SetOpExec.sortRows (SetOpExec.dedup [] rows) =
      sortBy (fun a b : Row => columnOrder a.values b.values) (firstOccurrences Row.values rows) := by
    rw [firsts]
    exact sortBy_congr fun a inA b inB =>
      compareValues_eq (sortableFirsts a inA) (sortableFirsts b inB)
  rw [sorted]
  constructor
  · refine strictlyAscending_sortBy ?_
    refine (List.pairwise_map.mp nodup_map_firstOccurrences).imp_of_mem fun inA inB unequal => ?_
    exact mt (columnOrder_eq_eq_iff (sortableFirsts _ inA) (sortableFirsts _ inB)).mp unequal
  · intro values
    have perm := (@stablySorted_sortBy _ (fun a b : Row => columnOrder a.values b.values) _
      (firstOccurrences Row.values rows)).perm
    rw [(perm.map Row.values).mem_iff, mem_map_firstOccurrences]

theorem values_nodup (ascending : rows.Pairwise fun a b => columnOrder a.values b.values = .lt) :
    (rows.map Row.values).Nodup := by
  refine List.pairwise_map.mpr (ascending.imp fun {a b} below same => ?_)
  rw [same, @Std.ReflCmp.compare_self _ columnOrder _ b.values] at below
  exact Ordering.noConfusion below

/-- The rows of the left input whose values are in the right one. -/
theorem filter_any_rowsEq (sortableLeft : SortableRows lrows) (sortableRight : SortableRows rrows) :
    ∀ row ∈ lrows, (rrows.any fun r => rowsEq r.values row.values) = true ↔
      row.values ∈ rrows.map Row.values := by
  intro row member
  have sortableValues : ∀ prev ∈ rrows.map Row.values, AllSortable prev := by
    rintro _ inMap
    obtain ⟨r, inRight, rfl⟩ := List.mem_map.mp inMap
    exact sortableRight r inRight
  rw [← any_rowsEq_iff sortableValues (sortableLeft row member), List.any_map]
  rfl

theorem mem_map_filter {keep : Row → Bool} {kept : List Value → Prop}
    (keeps : ∀ row ∈ rows, keep row = true ↔ kept row.values) (values : List Value) :
    values ∈ (rows.filter keep).map Row.values ↔ values ∈ rows.map Row.values ∧ kept values := by
  simp only [List.mem_map, List.mem_filter]
  constructor
  · rintro ⟨row, ⟨member, kept'⟩, rfl⟩
    exact ⟨⟨row, member, rfl⟩, (keeps row member).mp kept'⟩
  · rintro ⟨⟨row, member, rfl⟩, kept'⟩
    exact ⟨row, ⟨member, (keeps row member).mpr kept'⟩, rfl⟩

/-- **The set operations.** -/
theorem isSetResult_combine (notAll : kind = .union → all = false) (sortableLeft : SortableRows lrows)
    (sortableRight : SortableRows rrows) :
    IsSetResult kind lrows rrows (SetOpExec.combine kind all lrows rrows) := by
  have inRight := filter_any_rowsEq sortableLeft sortableRight
  have result {rows : List Row} (sortable : SortableRows rows)
      (members : ∀ values, values ∈ rows.map Row.values ↔
        kind.Holds (values ∈ lrows.map Row.values) (values ∈ rrows.map Row.values)) :
      IsSetResult kind lrows rrows (SetOpExec.sortRows (SetOpExec.dedup [] rows)) := by
    obtain ⟨ascending, same⟩ := sortRows_dedup sortable
    exact ⟨ascending, values_nodup ascending, fun values => (same values).trans (members values)⟩
  have sortableFilter (keep : Row → Bool) : SortableRows (lrows.filter keep) :=
    fun row member => sortableLeft row (List.mem_of_mem_filter member)
  cases kind with
  | union =>
      obtain rfl := notAll rfl
      refine result (fun row member => ?_) fun values => ?_
      · exact (List.mem_append.mp member).elim (sortableLeft row) (sortableRight row)
      · rw [List.map_append, List.mem_append]
        rfl
  | intersect => exact result (sortableFilter _) (mem_map_filter inRight)
  | except =>
      refine result (sortableFilter _) (mem_map_filter fun row member => ?_)
      rw [Bool.not_eq_true', ← Bool.not_eq_true, inRight row member]

/-- Results of the same sets have the same values in the same order. -/
theorem IsSetResult.values_eq {kind' : SetOpKind} {lrows' rrows' out out' : List Row}
    (result : IsSetResult kind lrows rrows out) (result' : IsSetResult kind' lrows' rrows' out')
    (same : ∀ values,
      kind.Holds (values ∈ lrows.map Row.values) (values ∈ rrows.map Row.values) ↔
        kind'.Holds (values ∈ lrows'.map Row.values) (values ∈ rrows'.map Row.values)) :
    out.map Row.values = out'.map Row.values := by
  refine strictlyAscending_ext (List.pairwise_map.mpr result.ascending)
    (List.pairwise_map.mpr result'.ascending) fun values => ?_
  rw [result.mem_iff, result'.mem_iff, same]

end Results

section Plans

variable {Query : Type} [Core.PageSource σ] {builtins : Builtins} {params : List Value}
  {left right : LogicalPlan Query} {columns : List ColumnInfo} {lrows rrows : List Row}

theorem setOp_yields (pulledLeft : (build builtins params left : Executor σ).Yields keeps lrows)
    (pulledRight : (build builtins params right : Executor σ).Yields keeps rrows) (kind : SetOpKind)
    (all : Bool) :
    (build builtins params (.setOp kind all left right columns) : Executor σ).Yields keeps
      (SetOpExec.combine kind all lrows rrows) := SetOpExec.yields pulledLeft pulledRight

/-- **DISTINCT, UNION, INTERSECT and EXCEPT** of inputs that yield these rows. -/
theorem setOperations_yield
    (pulledLeft : (build builtins params left : Executor σ).Yields keeps lrows)
    (pulledRight : (build builtins params right : Executor σ).Yields keeps rrows)
    (sortableLeft : SortableRows lrows) (sortableRight : SortableRows rrows) :
    (build builtins params (.distinct left) : Executor σ).Yields keeps
        (firstOccurrences Row.values lrows) ∧
      (build builtins params (.setOp .union true left right columns) : Executor σ).Yields keeps
        (lrows ++ rrows) ∧
      (∀ kind, ∃ out,
        (build builtins params (.setOp kind false left right columns) : Executor σ).Yields keeps out ∧
          IsSetResult kind lrows rrows out) ∧
      ∀ kind, kind ≠ .except → ∃ out swapped,
        (build builtins params (.setOp kind false left right columns) : Executor σ).Yields keeps out ∧
          (build builtins params (.setOp kind false right left columns) : Executor σ).Yields keeps
            swapped ∧
          out.map Row.values = swapped.map Row.values := by
  have result (kind : SetOpKind) := @isSetResult_combine lrows rrows kind false (fun _ => rfl)
    sortableLeft sortableRight
  refine ⟨?_, setOp_yields pulledLeft pulledRight .union true,
    fun kind => ⟨_, setOp_yields pulledLeft pulledRight kind false, result kind⟩,
    fun kind symmetric => ?_⟩
  · rw [← keepFirst_nil]
    exact DistinctExec.yields pulledLeft (List.forall_mem_nil _) sortableLeft
  · refine ⟨_, _, setOp_yields pulledLeft pulledRight kind false,
      setOp_yields pulledRight pulledLeft kind false, ?_⟩
    refine (result kind).values_eq
      (isSetResult_combine (fun _ => rfl) sortableRight sortableLeft) fun values => ?_
    cases kind with
    | union => exact or_comm
    | intersect => exact and_comm
    | except => exact absurd rfl symmetric

/-- `SELECT` of these constants. -/
def constants (values : List Value) : LogicalPlan Empty :=
  .project .dual (values.map Expr.literal) []

theorem constants_yields (values : List Value) :
    (build builtins params (constants values) : Executor σ).Yields keeps [⟨0, values⟩] := by
  have pulled : Executor.Yields keeps (build builtins params (.dual : LogicalPlan Empty) : Executor σ)
      [⟨0, []⟩] := DualExec.yields
  refine @ProjectExec.yields _ _ _ _ (fun _ => values) _ _ pulled fun row _ => ?_
  rw [List.map_map, List.mapM_map]
  exact (Outcome.mapM_eq_ok fun _ _ => rfl).trans (congrArg Except.ok (List.map_id _))

/-- `SELECT 2, NULL UNION ALL SELECT 2, NULL` and `SELECT 1, 'a'`. -/
theorem setOperations_yield_two :
    ∃ out, (build .bare [] (.setOp .union false
        (.setOp .union true (constants [.integer 2, .null]) (constants [.integer 2, .null]) [])
        (constants [.integer 1, .text ['a']]) []) : Executor Core.MemStore).Yields (fun _ => True) out ∧
      out.map Row.values = [[.integer 1, .text ['a']], [.integer 2, .null]] := by
  have two : AllSortable [.integer 2, .null] := by
    rintro v member
    rcases List.mem_pair.mp member with rfl | rfl
    · exact .integer (by decide)
    · exact .null
  have one : AllSortable [.integer 1, .text ['a']] := by
    rintro v member
    rcases List.mem_pair.mp member with rfl | rfl
    · exact .integer (by decide)
    · exact .text _
  have pulled : Executor.Yields (fun _ : Core.MemStore => True) (build .bare []
      (.setOp .union true (constants [.integer 2, .null]) (constants [.integer 2, .null]) []))
      [⟨0, [.integer 2, .null]⟩, ⟨0, [.integer 2, .null]⟩] :=
    setOp_yields (constants_yields _) (constants_yields _) .union true
  have sortable : SortableRows [⟨0, [.integer 2, .null]⟩, ⟨0, [.integer 2, .null]⟩] := by
    rintro row member
    rcases List.mem_pair.mp member with rfl | rfl
    · exact two
    · exact two
  obtain ⟨out, yields, result⟩ := (@setOperations_yield _ _ _ _ _ _ _ _ [] _ _ pulled
    (constants_yields _) sortable (List.forall_mem_singleton.mpr one)).2.2.1 .union
  refine ⟨out, yields, strictlyAscending_ext (List.pairwise_map.mpr result.ascending)
    (by decide +kernel) fun values => ?_⟩
  rw [result.mem_iff]
  simp [SetOpKind.Holds, or_comm]

end Plans

end Squrust.Sql
