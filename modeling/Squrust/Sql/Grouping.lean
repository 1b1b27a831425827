import Squrust.Sql.AggregateValues

/-!
# Groups

The rows of a group are those with its key (`members`), and its values are those of
the aggregates on them. Putting rows into groups one after another keeps a table of
the keys there are, each with the accumulators of its rows (`groupRows_eq`).
-/

set_option autoImplicit false

namespace Squrust.Sql

open Squrust.Foundation

open Squrust.Foundation.Pull

open Squrust.Foundation.Exec (own modifyOwn)

/-- The value of an expression on a row where it has one. -/
def computed (e : Compute) (row : Row) : Value := ((e row).toOption).getD .null

theorem computed_eq {e : Compute} {row : Row} (evaluates : ∃ v, e row = .ok v) :
    e row = .ok (computed e row) := by
  obtain ⟨v, evaluated⟩ := evaluates
  rw [computed, evaluated]
  rfl

namespace AggExec

/-! ## Groups apart from how they are computed -/

section

/-- The argument of an aggregate on a row, with the separator before it. -/
def argumentOf (agg : AggExpr Compute) (row : Row) : Text × Value :=
  ((agg.sep.map fun e => (computed e row).toDisplayString).getD [','],
    (agg.arg.map fun e => computed e row).getD .null)

variable (exprs : Exprs) (rows : List Row)

def keyOf (row : Row) : List Value := exprs.groupBy.map fun e => computed e row

/-- The rows of a group. -/
def members (key : List Value) : List Row := rows.filter fun row => keyOf exprs row = key

/-- The keys of the groups, in order. Without GROUP BY there is one group. -/
def groupKeys : List (List Value) :=
  if exprs.groupBy = [] then [[]]
  else sortBy columnOrder (firstOccurrences id (rows.map (keyOf exprs)))

/-- The values of the aggregates of a group. -/
def aggregates (key : List Value) : List Value :=
  exprs.aggs.map fun agg => aggregateOf agg.func agg.distinct ((members exprs rows key).map (argumentOf agg))

/-- The first row of a group. -/
def representative (key : List Value) : Row := (members exprs rows key).headD ⟨0, []⟩

/-- What HAVING looks at: the first row of the group, and the values of the aggregates. -/
def havingRow (key : List Value) : Row :=
  ⟨(representative exprs rows key).rowId,
    resize (representative exprs rows key).values exprs.baseLen ++ aggregates exprs rows key⟩

/-- Whether HAVING is true. -/
def satisfies (key : List Value) : Bool :=
  exprs.having.all fun h => (computed h (havingRow exprs rows key)).isTruthy

/-- The row of a group. -/
def groupRow (key : List Value) : Row :=
  ⟨0, exprs.output.map fun
    | .agg i => (aggregates exprs rows key).getD i .null
    | .expr e =>
        if members exprs rows key = [] then .null else computed e (representative exprs rows key)⟩

/-- The rows of the groups that HAVING keeps. -/
def groupRowsKept : List Row :=
  ((groupKeys exprs rows).filter (satisfies exprs rows)).map (groupRow exprs rows)

/-- The groups partition the rows by their keys, which ascend. -/
structure Partitions : Prop where
  ascending : (groupKeys exprs rows).Pairwise fun a b => columnOrder a b = .lt
  /-- Each row is in one group. -/
  perm : rows.Perm ((groupKeys exprs rows).flatMap (members exprs rows))
  mem_members : ∀ row key, row ∈ members exprs rows key ↔ row ∈ rows ∧ keyOf exprs row = key
  /-- What COUNT(*) counts. -/
  lengths : ((groupKeys exprs rows).map fun key => (members exprs rows key).length).sum = rows.length
  one : exprs.groupBy = [] → groupKeys exprs rows = [[]]
  grouped : exprs.groupBy ≠ [] → ∀ key,
    key ∈ groupKeys exprs rows ↔ ∃ row ∈ rows, keyOf exprs row = key

/-- Keys, arguments and separators have values on the rows; keys and arguments are NULLs, integers
of magnitude at most 2^53, texts or blobs. -/
structure EvaluatesOn : Prop where
  keys : ∀ row ∈ rows, ∀ e ∈ exprs.groupBy, ∃ v, e row = .ok v ∧ v.Sortable
  arguments : ∀ row ∈ rows, ∀ agg ∈ exprs.aggs, ∀ e ∈ agg.arg, ∃ v, e row = .ok v ∧ v.Sortable
  separators : ∀ row ∈ rows, ∀ agg ∈ exprs.aggs, agg.func = .groupConcat → ∀ e ∈ agg.sep,
    ∃ v, e row = .ok v

/-- So do HAVING and the output columns on the groups. -/
structure Evaluates : Prop extends EvaluatesOn exprs rows where
  having : ∀ key ∈ groupKeys exprs rows, ∀ h ∈ exprs.having, ∃ v, h (havingRow exprs rows key) = .ok v
  output : ∀ key ∈ groupKeys exprs rows, members exprs rows key ≠ [] → ∀ e, .expr e ∈ exprs.output →
    ∃ v, e (representative exprs rows key) = .ok v
  /-- The planner refers to aggregates there are. -/
  indices : ∀ i, .agg i ∈ exprs.output → i < exprs.aggs.length

end

/-! ## The groups as they are computed -/

section

variable {exprs : Exprs} {rows : List Row}

/-- A group as it is after these rows. -/
def groupOf (exprs : Exprs) (rows : List Row) (key : List Value) : Group :=
  ⟨key, exprs.aggs.map fun agg => Acc.new.run agg ((members exprs rows key).map (argumentOf agg)),
    representative exprs rows key, !(members exprs rows key).isEmpty⟩

theorem allSortable_keyOf {row : Row}
    (evaluates : ∀ e ∈ exprs.groupBy, ∃ v, e row = .ok v ∧ v.Sortable) :
    AllSortable (keyOf exprs row) := by
  intro v member
  obtain ⟨e, inKeys, rfl⟩ := List.mem_map.mp member
  obtain ⟨v, evaluated, sortable⟩ := evaluates e inKeys
  rw [computed, evaluated]
  exact sortable

theorem members_concat (row : Row) (key : List Value) :
    members exprs (rows ++ [row]) key =
      if keyOf exprs row = key then members exprs rows key ++ [row] else members exprs rows key := by
  rw [members, List.filter_append, List.filter_singleton]
  by_cases same : keyOf exprs row = key
  · rw [if_pos same, decide_eq_true same]
    rfl
  · rw [if_neg same, decide_eq_false same, cond_false, List.append_nil]
    rfl

/-- The separator matters for GROUP_CONCAT only. -/
theorem update_sep {E : Type} (acc : Acc) (agg : AggExpr E) (v : Value) (sep : Text) :
    acc.update agg v (if agg.func = .groupConcat then some sep else none) =
      acc.update agg v (some sep) := by
  by_cases concat : agg.func = .groupConcat
  · rw [if_pos concat]
  · have same : ∀ acc : Acc, acc.take agg.func v none = acc.take agg.func v (some sep) := by
      intro acc
      cases func : agg.func with
      | groupConcat => exact absurd func concat
      | _ => rfl
    rw [if_neg concat, Acc.update, Acc.update, same, same]

/-- The argument first, then the separator, then the other aggregates. -/
theorem updateAccs_cons (row : Row) (agg : AggExpr Compute) (aggs : List (AggExpr Compute)) (acc : Acc)
    (accs : List Acc) :
    updateAccs row (agg :: aggs) (acc :: accs) =
      (agg.arg.elim (.ok .null) fun e => e row) >>= fun v =>
        (if agg.func = .groupConcat then
          agg.sep.elim (.ok (some [','])) fun e => e row >>= fun v => .ok (some v.toDisplayString)
        else .ok none) >>= fun sep =>
          updateAccs row aggs accs >>= fun rest => .ok (acc.update agg v sep :: rest) := by
  rw [updateAccs]
  by_cases concat : agg.func = .groupConcat
  · simp only [if_pos concat]
    cases agg.sep with
    | none =>
        cases agg.arg with
        | none => rfl
        | some e => rfl
    | some e =>
        simp only [Option.elim_some, bind_assoc]
        cases agg.arg with
        | none => rfl
        | some e => rfl
  · simp only [if_neg concat]
    cases agg.arg with
    | none => rfl
    | some e => rfl

/-- **Updating the accumulators** of a group with a row. -/
theorem updateAccs_eq {row : Row} {aggs : List (AggExpr Compute)} {accOf : AggExpr Compute → Acc}
    (arguments : ∀ agg ∈ aggs, ∀ e ∈ agg.arg, ∃ v, e row = .ok v)
    (separators : ∀ agg ∈ aggs, agg.func = .groupConcat → ∀ e ∈ agg.sep, ∃ v, e row = .ok v) :
    updateAccs row aggs (aggs.map accOf) =
      .ok (aggs.map fun agg =>
        (accOf agg).update agg (argumentOf agg row).2 (some (argumentOf agg row).1)) := by
  induction aggs with
  | nil => rfl
  | cons agg aggs ih =>
      have rest := ih (fun other member => arguments other (List.mem_cons_of_mem _ member))
        fun other member => separators other (List.mem_cons_of_mem _ member)
      have argument : (agg.arg.elim (.ok .null) fun e => e row : Outcome SqlError Value) =
          .ok (argumentOf agg row).2 := by
        cases given : agg.arg with
        | none => rw [argumentOf, given]; rfl
        | some e =>
            rw [argumentOf, given]
            exact computed_eq (arguments agg List.mem_cons_self e given)
      have separator : (if agg.func = .groupConcat then
          agg.sep.elim (.ok (some [','])) fun e => e row >>= fun v => .ok (some v.toDisplayString)
          else .ok none : Outcome SqlError (Option Text)) =
          .ok (if agg.func = .groupConcat then some (argumentOf agg row).1 else none) := by
        by_cases concat : agg.func = .groupConcat
        · rw [if_pos concat, if_pos concat]
          cases given : agg.sep with
          | none => rw [argumentOf, given]; rfl
          | some e =>
              have evaluated := computed_eq (separators agg List.mem_cons_self concat e given)
              rw [argumentOf, given, Option.elim_some, evaluated]
              rfl
        · rw [if_neg concat, if_neg concat]
      rw [List.map_cons, updateAccs_cons, argument, separator, Outcome.ok_bind, Outcome.ok_bind,
        update_sep, rest, Outcome.ok_bind]
      rfl

variable {prior : List Row} {row : Row}

/-- The keys of the groups in the order in which they were met. -/
def metKeys (exprs : Exprs) (rows : List Row) : List (List Value) :=
  firstOccurrences id (rows.map (keyOf exprs))

theorem mem_metKeys {key : List Value} : key ∈ metKeys exprs rows ↔ key ∈ rows.map (keyOf exprs) := by
  have same := @mem_map_firstOccurrences _ _ _ id (rows.map (keyOf exprs)) key
  rwa [List.map_id, List.map_id] at same

theorem nodup_metKeys : (metKeys exprs rows).Nodup := by
  have nodup := @nodup_map_firstOccurrences _ _ _ id (rows.map (keyOf exprs))
  rwa [List.map_id] at nodup

theorem metKeys_concat_of_met (met : keyOf exprs row ∈ metKeys exprs prior) :
    metKeys exprs (prior ++ [row]) = metKeys exprs prior := by
  rw [metKeys, List.map_append, List.map_singleton, firstOccurrences_concat, if_pos, List.append_nil]
  · rfl
  · rwa [List.map_id, id, ← mem_metKeys]

theorem metKeys_concat_of_not_met (fresh : keyOf exprs row ∉ metKeys exprs prior) :
    metKeys exprs (prior ++ [row]) = metKeys exprs prior ++ [keyOf exprs row] := by
  rw [metKeys, List.map_append, List.map_singleton, firstOccurrences_concat, if_neg]
  · rfl
  · rwa [List.map_id, id, ← mem_metKeys]

theorem members_ne_nil {key : List Value} (met : key ∈ metKeys exprs prior) :
    members exprs prior key ≠ [] := by
  obtain ⟨other, member, same⟩ := List.mem_map.mp (mem_metKeys.mp met)
  exact List.ne_nil_of_mem (List.mem_filter.mpr ⟨member, decide_eq_true same⟩)

/-- A group with another key is as it was. -/
theorem groupOf_of_ne {key : List Value} (other : keyOf exprs row ≠ key) :
    groupOf exprs (prior ++ [row]) key = groupOf exprs prior key := by
  rw [groupOf, groupOf, representative, representative, members_concat, if_neg other]

/-- The accumulators of a group, updated with a row. -/
def updatedAccs (exprs : Exprs) (members : List Row) (row : Row) : List Acc :=
  exprs.aggs.map fun agg => (Acc.new.run agg (members.map (argumentOf agg))).update agg
    (argumentOf agg row).2 (some (argumentOf agg row).1)

theorem run_concat {E : Type} (agg : AggExpr E) (arguments : List (Text × Value))
    (entry : Text × Value) :
    Acc.new.run agg (arguments ++ [entry]) =
      (Acc.new.run agg arguments).update agg entry.2 (some entry.1) := by
  rw [Acc.run, List.foldl_append]
  rfl

theorem runs_concat (members : List Row) :
    (exprs.aggs.map fun agg => Acc.new.run agg ((members ++ [row]).map (argumentOf agg))) =
      updatedAccs exprs members row := by
  refine List.map_congr_left fun agg _ => ?_
  rw [List.map_append, List.map_singleton, run_concat]

/-- The group of the row, when there are rows in it. -/
theorem groupOf_of_met (met : keyOf exprs row ∈ metKeys exprs prior) :
    groupOf exprs (prior ++ [row]) (keyOf exprs row) =
      { groupOf exprs prior (keyOf exprs row) with
        accs := updatedAccs exprs (members exprs prior (keyOf exprs row)) row } := by
  have some_ := members_ne_nil met
  rw [groupOf, groupOf, representative, representative, members_concat, if_pos rfl, runs_concat]
  cases rest : members exprs prior (keyOf exprs row) with
  | nil => exact absurd rest some_
  | cons first others => rfl

/-- The group of the row, when it is the first one in it. -/
theorem groupOf_of_not_met (fresh : keyOf exprs row ∉ metKeys exprs prior)
    (wide : row.values ≠ []) :
    groupOf exprs (prior ++ [row]) (keyOf exprs row) =
      { Group.new (keyOf exprs row) exprs.aggs.length row with accs := updatedAccs exprs [] row } := by
  have none : members exprs prior (keyOf exprs row) = [] := by
    refine List.filter_eq_nil_iff.mpr fun other member same => fresh ?_
    exact mem_metKeys.mpr (List.mem_map.mpr ⟨other, member, of_decide_eq_true same⟩)
  have hasRep : (decide (row.values ≠ []) || decide (row.rowId ≠ 0)) = true := by
    rw [decide_eq_true wide, Bool.true_or]
  rw [groupOf, representative, members_concat, if_pos rfl, none, runs_concat, Group.new, hasRep]
  rfl

/-- **Putting a row into its group.** -/
theorem addRow_eq (wide : row.values ≠ []) (evaluates : EvaluatesOn exprs (prior ++ [row])) :
    addRow exprs ((metKeys exprs prior).map (groupOf exprs prior)) row =
      .ok ((metKeys exprs (prior ++ [row])).map (groupOf exprs (prior ++ [row]))) := by
  have isLast : row ∈ prior ++ [row] := List.mem_append_right _ List.mem_cons_self
  have key : exprs.groupBy.mapM (fun e => e row) = .ok (keyOf exprs row) := by
    refine Outcome.mapM_eq_ok fun e member => ?_
    obtain ⟨v, evaluated, _⟩ := evaluates.keys row isLast e member
    exact computed_eq ⟨v, evaluated⟩
  have sortable : ∀ other ∈ prior ++ [row], AllSortable (keyOf exprs other) :=
    fun other member => allSortable_keyOf (evaluates.keys other member)
  have isKey : ∀ k ∈ metKeys exprs prior,
      keysEq k (keyOf exprs row) = true ↔ k = keyOf exprs row := by
    intro k met
    obtain ⟨other, member, rfl⟩ := List.mem_map.mp (mem_metKeys.mp met)
    exact keysEq_iff (sortable other (List.mem_append_left _ member)) (sortable row isLast)
  have updated (accOf : AggExpr Compute → Acc) : updateAccs row exprs.aggs (exprs.aggs.map accOf) = _ :=
    updateAccs_eq (fun agg member e given => by
      obtain ⟨v, evaluated, _⟩ := evaluates.arguments row isLast agg member e given
      exact ⟨v, evaluated⟩) (evaluates.separators row isLast)
  by_cases met : keyOf exprs row ∈ metKeys exprs prior
  · obtain ⟨i, inRange, isThere⟩ := List.mem_iff_getElem.mp met
    have found : ((metKeys exprs prior).map (groupOf exprs prior)).findIdx?
        (fun g => keysEq g.key (keyOf exprs row)) = some i := by
      rw [List.findIdx?_eq_some_iff_getElem]
      refine ⟨by rwa [List.length_map], ?_, fun j before => ?_⟩
      · rw [List.getElem_map]
        exact (isKey _ (List.getElem_mem inRange)).mpr isThere
      · rw [List.getElem_map]
        intro same
        have equal := (isKey _ (List.getElem_mem _)).mp same
        rw [← isThere] at equal
        exact absurd ((nodup_metKeys.getElem_inj_iff).mp equal) before.ne
    have there : ((metKeys exprs prior).map (groupOf exprs prior))[i]? =
        some (groupOf exprs prior (keyOf exprs row)) := by
      rw [List.getElem?_map, List.getElem?_eq_getElem inRange, isThere, Option.map_some]
    have accs := updated fun agg =>
      Acc.new.run agg ((members exprs prior (keyOf exprs row)).map (argumentOf agg))
    rw [addRow, key, Outcome.ok_bind, metKeys_concat_of_met met]
    simp only [found, there]
    change updateAccs row exprs.aggs (exprs.aggs.map _) >>= _ = _
    rw [accs, Outcome.ok_bind]
    have entry := @set_map_of_nodup _ _ _ (groupOf exprs prior) (groupOf exprs (prior ++ [row]))
      nodup_metKeys i inRange fun k _ other =>
        groupOf_of_ne fun same => other (same.symm.trans isThere.symm)
    rw [isThere, groupOf_of_met met] at entry
    exact congrArg Except.ok entry
  · have notFound : ((metKeys exprs prior).map (groupOf exprs prior)).findIdx?
        (fun g => keysEq g.key (keyOf exprs row)) = none := by
      rw [List.findIdx?_eq_none_iff]
      intro g member
      obtain ⟨k, isMet, rfl⟩ := List.mem_map.mp member
      exact Bool.eq_false_of_not_eq_true fun same => met ((isKey k isMet).mp same ▸ isMet)
    rw [addRow, key, Outcome.ok_bind, metKeys_concat_of_not_met met]
    simp only [notFound]
    have accs := updated fun _ => Acc.new
    rw [List.map_const'] at accs
    rw [Group.new, accs, Outcome.ok_bind, List.map_append, List.map_singleton,
      groupOf_of_not_met met wide]
    refine congrArg (fun groups : List Group => Except.ok (groups ++ [_])) ?_
    refine List.map_congr_left fun k isMet => (groupOf_of_ne fun same => met ?_).symm
    exact same ▸ isMet

theorem EvaluatesOn.mono {rows' : List Row} (evaluates : EvaluatesOn exprs rows)
    (fewer : rows' ⊆ rows) : EvaluatesOn exprs rows' where
  keys row member := evaluates.keys row (fewer member)
  arguments row member := evaluates.arguments row (fewer member)
  separators row member := evaluates.separators row (fewer member)

/-- The groups after further rows. -/
theorem addRows_eq {rest : List Row} (evaluates : EvaluatesOn exprs (prior ++ rest))
    (wide : ∀ row ∈ rest, row.values ≠ []) :
    rest.foldlM (addRow exprs) ((metKeys exprs prior).map (groupOf exprs prior)) =
      .ok ((metKeys exprs (prior ++ rest)).map (groupOf exprs (prior ++ rest))) := by
  induction rest generalizing prior with
  | nil => rw [List.append_nil]; rfl
  | cons row rest ih =>
      have assoc : prior ++ row :: rest = prior ++ [row] ++ rest := List.append_cons _ _ _
      rw [assoc] at evaluates ⊢
      rw [List.foldlM_cons, addRow_eq (wide row List.mem_cons_self)
        (evaluates.mono (List.subset_append_left _ _)), Outcome.ok_bind]
      exact ih evaluates fun other member => wide other (List.mem_cons_of_mem _ member)

/-- With GROUP BY, or with rows, the keys are those that were met. -/
theorem groupKeys_eq (some_ : ¬(exprs.groupBy = [] ∧ rows = [])) :
    groupKeys exprs rows = sortBy columnOrder (metKeys exprs rows) := by
  by_cases one : exprs.groupBy = []
  · obtain ⟨row, member⟩ := List.exists_mem_of_ne_nil rows fun empty => some_ ⟨one, empty⟩
    have all : ∀ row, keyOf exprs row = [] := fun row => by rw [keyOf, one, List.map_nil]
    have there : [] ∈ metKeys exprs rows :=
      mem_metKeys.mpr (List.mem_map.mpr ⟨row, member, all row⟩)
    have only : ∀ key ∈ metKeys exprs rows, key = [] := by
      intro key met
      obtain ⟨other, _, rfl⟩ := List.mem_map.mp (mem_metKeys.mp met)
      exact all other
    have single : metKeys exprs rows = [[]] :=
      List.perm_singleton.mp ((List.perm_ext_iff_of_nodup nodup_metKeys (List.nodup_singleton _)).mpr
        fun key => ⟨fun met => List.mem_singleton.mpr (only key met),
          fun same => List.mem_singleton.mp same ▸ there⟩)
    rw [groupKeys, if_pos one, single, sortBy, List.mergeSort_singleton]
  · rw [groupKeys, if_neg one]
    rfl

/-- **The table of groups.** -/
theorem groupRows_eq (evaluates : EvaluatesOn exprs rows) (wide : ∀ row ∈ rows, row.values ≠ []) :
    groupRows exprs rows = .ok ((groupKeys exprs rows).map (groupOf exprs rows)) := by
  have folded : rows.foldlM (addRow exprs) [] = .ok ((metKeys exprs rows).map (groupOf exprs rows)) :=
    @addRows_eq exprs [] rows evaluates wide
  have sortable : ∀ key ∈ metKeys exprs rows, AllSortable key := by
    intro key met
    obtain ⟨row, member, rfl⟩ := List.mem_map.mp (mem_metKeys.mp met)
    exact allSortable_keyOf (evaluates.keys row member)
  have sorted : sortBy (fun a b => compareValues a.key b.key)
        ((metKeys exprs rows).map (groupOf exprs rows)) =
      (sortBy columnOrder (metKeys exprs rows)).map (groupOf exprs rows) :=
    (@map_sortBy _ _ _ _ (fun a b : Group => compareValues a.key b.key) (groupOf exprs rows)
      fun a inA b inB => (compareValues_eq (sortable a inA) (sortable b inB)).symm).symm
  by_cases noRow : exprs.groupBy = [] ∧ rows = []
  · obtain ⟨one, rfl⟩ := noRow
    have both : exprs.groupBy.isEmpty = true ∧
        ((metKeys exprs []).map (groupOf exprs [])).isEmpty = true := ⟨List.isEmpty_iff.mpr one, rfl⟩
    rw [groupRows, folded, Outcome.ok_bind, if_pos both, groupKeys, if_pos one, List.map_singleton,
      groupOf]
    have fresh : List.replicate exprs.aggs.length Acc.new = exprs.aggs.map fun _ => Acc.new :=
      List.map_const'.symm
    rw [Group.new, fresh]
    rfl
  · have notBoth : ¬(exprs.groupBy.isEmpty = true ∧
        ((metKeys exprs rows).map (groupOf exprs rows)).isEmpty = true) := by
      rintro ⟨one, empty⟩
      refine noRow ⟨List.isEmpty_iff.mp one, List.eq_nil_iff_forall_not_mem.mpr fun row member => ?_⟩
      have met := mem_metKeys.mpr (List.mem_map_of_mem member : keyOf exprs row ∈ rows.map (keyOf exprs))
      rw [List.map_eq_nil_iff.mp (List.isEmpty_iff.mp empty)] at met
      exact List.not_mem_nil met
    rw [groupRows, folded, Outcome.ok_bind, if_neg notBoth, sorted, groupKeys_eq noRow]
    rfl

/-! ## The rows of the groups -/

theorem mem_groupKeys {key : List Value} (grouped : exprs.groupBy ≠ []) :
    key ∈ groupKeys exprs rows ↔ key ∈ rows.map (keyOf exprs) := by
  rw [groupKeys_eq fun both => grouped both.1, sortBy, List.mem_mergeSort, mem_metKeys]

/-- The keys ascend. -/
theorem groupKeys_ascending (evaluates : EvaluatesOn exprs rows) :
    (groupKeys exprs rows).Pairwise fun a b => columnOrder a b = .lt := by
  by_cases noRow : exprs.groupBy = [] ∧ rows = []
  · rw [groupKeys, if_pos noRow.1]
    exact List.pairwise_singleton _ _
  · have sortable : ∀ key ∈ metKeys exprs rows, AllSortable key := by
      intro key met
      obtain ⟨row, member, rfl⟩ := List.mem_map.mp (mem_metKeys.mp met)
      exact allSortable_keyOf (evaluates.keys row member)
    rw [groupKeys_eq noRow]
    refine strictlyAscending_sortBy (nodup_metKeys.imp_of_mem fun inA inB unequal => ?_)
    exact mt (columnOrder_eq_eq_iff (sortable _ inA) (sortable _ inB)).mp unequal

/-- **The groups partition the rows.** -/
theorem perm_members (evaluates : EvaluatesOn exprs rows) :
    rows.Perm ((groupKeys exprs rows).flatMap (members exprs rows)) := by
  refine perm_flatMap_filter ?_ fun row member => ?_
  · refine (groupKeys_ascending evaluates).imp fun {a b} below same => ?_
    rw [same, @Std.ReflCmp.compare_self _ columnOrder _ b] at below
    exact Ordering.noConfusion below
  · by_cases one : exprs.groupBy = []
    · rw [groupKeys, if_pos one, keyOf, one]
      exact List.mem_cons_self
    · exact (mem_groupKeys one).mpr (List.mem_map_of_mem member)

/-- The values of the accumulators of a group. -/
theorem finalize_groupOf (evaluates : EvaluatesOn exprs rows) (key : List Value) :
    List.zipWith (fun agg acc => acc.finalize agg.func) exprs.aggs (groupOf exprs rows key).accs =
      aggregates exprs rows key := by
  rw [groupOf, List.zipWith_map_right, List.zipWith_self, aggregates]
  refine List.map_congr_left fun agg inAggs => Acc.finalize_run fun entry member => ?_
  obtain ⟨row, inMembers, rfl⟩ := List.mem_map.mp member
  rw [argumentOf]
  cases given : agg.arg with
  | none => exact .null
  | some e =>
      obtain ⟨v, evaluated, sortable⟩ :=
        evaluates.arguments row (List.mem_of_mem_filter inMembers) agg inAggs e given
      rw [Option.map_some, Option.getD_some, computed, evaluated]
      exact sortable

/-- **The row of a group**, if HAVING is true. -/
theorem outputRow_eq (evaluates : Evaluates exprs rows) {key : List Value}
    (member : key ∈ groupKeys exprs rows) :
    outputRow exprs (groupOf exprs rows key) =
      .ok (if satisfies exprs rows key then some (groupRow exprs rows key) else none) := by
  have values : (exprs.output.mapM fun col => do
      match col with
      | .agg i => Outcome.orPanic "index out of bounds" (aggregates exprs rows key)[i]?
      | .expr e =>
          if (groupOf exprs rows key).hasRep then e (groupOf exprs rows key).rep
          else return .null) = .ok (groupRow exprs rows key).values := by
    refine Outcome.mapM_eq_ok fun col inOutput => ?_
    cases col with
    | agg i =>
        have inRange : i < (aggregates exprs rows key).length := by
          rw [aggregates, List.length_map]
          exact evaluates.indices i inOutput
        simp only [List.getElem?_eq_getElem inRange, List.getD_eq_getElem _ _ inRange]
        rfl
    | expr e =>
        by_cases none : members exprs rows key = []
        · simp only [groupOf, none, List.isEmpty_nil, Bool.not_true, Bool.false_eq_true, if_false,
            if_true]
          rfl
        · have hasRep : (groupOf exprs rows key).hasRep = true := by
            rw [groupOf, Bool.not_eq_true', List.isEmpty_eq_false_iff]
            exact none
          simp only [hasRep, if_true, if_neg none]
          exact computed_eq (evaluates.output key member none e inOutput)
  have rest (keep : Bool) : (if keep then do
      let values ← exprs.output.mapM fun col => do
        match col with
        | .agg i => Outcome.orPanic "index out of bounds" (aggregates exprs rows key)[i]?
        | .expr e =>
            if (groupOf exprs rows key).hasRep then e (groupOf exprs rows key).rep
            else return .null
      return some ⟨0, values⟩
      else return none) =
      (.ok (if keep then some (groupRow exprs rows key) else none) : Outcome SqlError (Option Row)) := by
    cases keep with
    | false => rfl
    | true =>
        rw [if_pos rfl, if_pos rfl, values]
        rfl
  rw [outputRow, finalize_groupOf evaluates.toEvaluatesOn key, satisfies]
  cases given : exprs.having with
  | none => exact rest true
  | some h =>
      have evaluated := computed_eq (evaluates.having key member h given)
      change (h (havingRow exprs rows key) >>= fun v => _) = _
      rw [evaluated, Option.all_some]
      exact rest _

/-- **The rows of the aggregate.** -/
theorem aggregate_eq (evaluates : Evaluates exprs rows) (wide : ∀ row ∈ rows, row.values ≠ []) :
    aggregate exprs rows = .ok (groupRowsKept exprs rows) := by
  have rowsOf : ((groupKeys exprs rows).map (groupOf exprs rows)).mapM (outputRow exprs) =
      .ok ((groupKeys exprs rows).map fun key =>
        if satisfies exprs rows key then some (groupRow exprs rows key) else none) := by
    rw [List.mapM_map]
    exact Outcome.mapM_eq_ok fun key member => outputRow_eq evaluates member
  have kept : ((groupKeys exprs rows).map fun key =>
      if satisfies exprs rows key then some (groupRow exprs rows key) else none).filterMap id =
      groupRowsKept exprs rows := by
    rw [groupRowsKept, List.filterMap_map, ← @List.filterMap_eq_map _ _ (groupRow exprs rows), List.filterMap_filter]
    rfl
  rw [aggregate, groupRows_eq evaluates.toEvaluatesOn wide, Outcome.ok_bind, rowsOf, Outcome.ok_bind,
    kept]
  rfl

theorem partitions (evaluates : EvaluatesOn exprs rows) : Partitions exprs rows where
  ascending := groupKeys_ascending evaluates
  perm := perm_members evaluates
  mem_members row key := by rw [members, List.mem_filter, decide_eq_true_iff]
  lengths := by
    have lengths := (perm_members evaluates).length_eq
    rw [List.length_flatMap] at lengths
    exact lengths.symm
  one none := by rw [groupKeys, if_pos none]
  grouped some_ key := by rw [mem_groupKeys some_, List.mem_map]

variable {σ : Type} {keeps : σ → Prop} {input : Executor σ}

theorem yields {inner : input.State} (pulled : Pull.Yields keeps input.next inner rows)
    (evaluates : Evaluates exprs rows) (wide : ∀ row ∈ rows, row.values ≠ []) :
    Pull.Yields keeps (next exprs input) ⟨some inner, none⟩ (groupRowsKept exprs rows) := by
  have start : ∀ fuel store, compute exprs input fuel (store, ⟨some inner, none⟩) =
      (drain input inner fuel >>= fun rows => Exec.lift (aggregate exprs rows))
        (store, (⟨none, none⟩ : State input)) := fun _ _ => rfl
  exact yields_computed (fun _ _ => rfl) rfl
    (.of_eq start (.bind (gives_drain pulled _) (.lift (aggregate_eq evaluates wide) _)))

end

end AggExec

section Plans

variable {Query : Type} (builtins : Builtins) (params : List Value) (groupBy : List (Expr Query))
  (aggs : List (AggExpr (Expr Query))) (output : List (OutputCol (Expr Query))) (baseLen : Nat)
  (having : Option (Expr Query))

/-- The expressions of an aggregate, ready to be evaluated. -/
def aggExprs : AggExec.Exprs :=
  ⟨groupBy.map (evalRow builtins params), aggs.map (.map (evalRow builtins params)),
    output.map (.map (evalRow builtins params)), baseLen, having.map (evalRow builtins params)⟩

variable {builtins params groupBy aggs output baseLen having} {σ : Type} {keeps : σ → Prop}
  [Core.PageSource σ] {input : LogicalPlan Query} {columns : List ColumnInfo} {rows : List Row}

/-- **Aggregation** of an input that yields these rows: what it yields, one row for each group for
which HAVING is true, and that the groups partition the rows. -/
theorem aggregate_yields (pulled : (build builtins params input : Executor σ).Yields keeps rows)
    (wide : ∀ row ∈ rows, row.values ≠ [])
    (evaluates : AggExec.Evaluates (aggExprs builtins params groupBy aggs output baseLen having) rows) :
    (build builtins params (.aggregate input groupBy aggs output columns baseLen having) :
        Executor σ).Yields keeps
      (AggExec.groupRowsKept (aggExprs builtins params groupBy aggs output baseLen having) rows) ∧
      AggExec.Partitions (aggExprs builtins params groupBy aggs output baseLen having) rows :=
  ⟨AggExec.yields pulled evaluates wide, AggExec.partitions evaluates.toEvaluatesOn⟩

/-- `SELECT a, count(*), group_concat(DISTINCT b) ... GROUP BY a HAVING count(*)`. -/
def groupedExprs : AggExec.Exprs :=
  @aggExprs Empty .bare [] [.column 0]
    [⟨.countStar, none, false, none⟩, ⟨.groupConcat, some (.column 1), true, none⟩]
    [.expr (.column 0), .agg 0, .agg 1] 2 (some (.column 2))

/-- Three rows, two of them with the same key. -/
def threeRows : List Row :=
  [⟨0, [.integer 2, .text ['a']]⟩, ⟨0, [.null, .text ['b']]⟩, ⟨0, [.integer 2, .text ['c']]⟩]

theorem evaluatesOn_threeRows : AggExec.EvaluatesOn groupedExprs threeRows where
  keys row member e inKeys := by
    rw [List.mem_singleton.mp inKeys]
    rcases List.mem_cons.mp member with rfl | member
    · exact ⟨_, rfl, .integer (by decide)⟩
    · rcases List.mem_pair.mp member with rfl | rfl
      · exact ⟨_, rfl, .null⟩
      · exact ⟨_, rfl, .integer (by decide)⟩
  arguments row member agg inAggs e given := by
    rcases List.mem_pair.mp inAggs with rfl | rfl
    · cases given
    · obtain rfl := Option.some.inj given
      rcases List.mem_cons.mp member with rfl | member
      · exact ⟨_, rfl, .text _⟩
      · rcases List.mem_pair.mp member with rfl | rfl
        · exact ⟨_, rfl, .text _⟩
        · exact ⟨_, rfl, .text _⟩
  separators row member agg inAggs concat e given := by
    rcases List.mem_pair.mp inAggs with rfl | rfl
    · cases given
    · cases given

theorem groupKeys_threeRows :
    AggExec.groupKeys groupedExprs threeRows = [[.null], [.integer 2]] := by
  refine strictlyAscending_ext (AggExec.groupKeys_ascending evaluatesOn_threeRows) (by decide +kernel)
    fun key => ?_
  have keys : threeRows.map (AggExec.keyOf groupedExprs) =
      [[.integer 2], [.null], [.integer 2]] := by decide +kernel
  rw [AggExec.mem_groupKeys (List.cons_ne_nil _ _), keys]
  simp only [List.mem_cons, List.not_mem_nil, or_false]
  exact ⟨fun either => either.elim .inr id, fun either => .inr either⟩

theorem aggregate_yields_three :
    (build .bare [] (.aggregate (.setOp .union true
      (.setOp .union true (constants [.integer 2, .text ['a']]) (constants [.null, .text ['b']]) [])
      (constants [.integer 2, .text ['c']]) []) [.column 0]
      [⟨.countStar, none, false, none⟩, ⟨.groupConcat, some (.column 1), true, none⟩]
      [.expr (.column 0), .agg 0, .agg 1] [] 2 (some (.column 2))) : Executor Core.MemStore).Yields
        (fun _ => True)
      [⟨0, [.null, .integer 1, .text ['b']]⟩,
        ⟨0, [.integer 2, .integer 2, .text ['a', ',', 'c']]⟩] := by
  have pulled : Executor.Yields (fun _ : Core.MemStore => True) (build .bare [] (.setOp .union true
      (.setOp .union true (constants [.integer 2, .text ['a']]) (constants [.null, .text ['b']]) [])
      (constants [.integer 2, .text ['c']]) [])) threeRows :=
    setOp_yields (setOp_yields (constants_yields _) (constants_yields _) .union true)
      (constants_yields _) .union true
  have evaluates : AggExec.Evaluates groupedExprs threeRows := by
    refine { evaluatesOn_threeRows with having := ?_, output := ?_, indices := ?_ }
    · rw [groupKeys_threeRows]
      intro key member h given
      obtain rfl := Option.some.inj given
      rcases List.mem_pair.mp member with rfl | rfl
      · exact ⟨.integer 1, by decide +kernel⟩
      · exact ⟨.integer 2, by decide +kernel⟩
    · rw [groupKeys_threeRows]
      intro key member _ e inOutput
      obtain rfl : e = evalRow .bare [] (.column 0 : Expr Empty) := by
        simpa [groupedExprs, aggExprs, OutputCol.map] using inOutput
      rcases List.mem_pair.mp member with rfl | rfl
      · exact ⟨.null, by decide +kernel⟩
      · exact ⟨.integer 2, by decide +kernel⟩
    · intro i inOutput
      have known : i = 0 ∨ i = 1 := by
        simpa [groupedExprs, aggExprs, OutputCol.map] using inOutput
      rcases known with rfl | rfl
      · decide
      · decide
  have yields := (@aggregate_yields _ _ _ _ _ _ _ _ _ _ _ _ [] _ pulled (by decide) evaluates).1
  have rows : AggExec.groupRowsKept groupedExprs threeRows =
      [⟨0, [.null, .integer 1, .text ['b']]⟩,
        ⟨0, [.integer 2, .integer 2, .text ['a', ',', 'c']]⟩] := by
    rw [AggExec.groupRowsKept, groupKeys_threeRows]
    decide +kernel
  exact rows ▸ yields

end Plans

end Squrust.Sql
