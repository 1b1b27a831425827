import Squrust.Sql.QueryShapes

/-!
# Plans have the shape of their query

The planner follows the query: each of its functions makes a plan of the shape that was
known before, if its parts have theirs. The relations of FROM stand side by side in the scope,
each under one name (`OfRelations`), which is what a `t.*` counts.
-/

set_option autoImplicit false

namespace Squrust.Sql

open Squrust.Foundation

variable {Sub : Type}

/-- A plan with the columns of a shape, which is well indexed exactly if the shape fits. -/
structure LogicalPlan.HasShape (plan : LogicalPlan Sub) (shape : Shape) : Prop where
  width : plan.columns.length = shape.width
  wellIndexed : plan.WellIndexed ↔ shape.fits = true

/-- Every named query has the shape that is known of it. -/
structure CteMap.HasShapes (ctes : CteMap Sub) (shapes : Shapes) : Prop where
  known : ∀ {key : Text} {cte : CteDef Sub}, ctes.get? key = some cte →
    ∃ shape, shapes.get? key = some shape ∧ cte.plan.HasShape shape ∧ cte.scope.length = shape.width
  unknown : ∀ {key : Text}, ctes.get? key = none → shapes.get? key = none

/-- A plan with its scope, made of relations that stand side by side. -/
structure OfRelations (found : LogicalPlan Sub × Scope) (relations : List (Text × Shape)) : Prop where
  width : found.1.columns.length = found.2.length
  tables : found.2.map ScopeCol.table = relations.flatMap fun r => List.replicate r.2.width (some r.1)
  wellIndexed : found.1.WellIndexed ↔ relations.all (fun r => r.2.fits) = true

/-! ## FROM -/

theorem Scope.map_table_qualified (scope : Scope) (qualifier : Text) :
    (scope.qualified qualifier).map ScopeCol.table = List.replicate scope.length (some qualifier) := by
  rw [Scope.qualified, List.map_map]
  exact List.map_const' ..

theorem map_table_aliasedScope (table : Table) (alias_ : Option Text) :
    (aliasedScope table alias_).map ScopeCol.table =
      List.replicate table.columns.length (some (alias_.getD table.name)) := by
  cases alias_ with
  | some a =>
      rw [aliasedScope, Scope.map_table_qualified, tableScope, List.length_map]
      rfl
  | none =>
      rw [aliasedScope, tableScope, List.map_map]
      exact List.map_const' ..

section

variable {catalog : Catalog} {ctes : CteMap Sub} {shapes : Shapes}

/-- A relation has the shape that is known of it. -/
theorem resolveRelation_shape (named : ctes.HasShapes shapes) {tf : TableFactor}
    {found : LogicalPlan Sub × Scope} (run : resolveRelation catalog ctes tf = .ok found) :
    OfRelations found [relationShape catalog shapes tf] := by
  cases tf with
  | other display => cases run
  | table name alias_ =>
      rw [resolveRelation, tableFactor, Outcome.ok_bind] at run
      cases cte? : ctes.get? (Text.toAsciiLowercase (objectNameToString name)) with
      | some cte =>
          obtain ⟨shape, known, hasShape, width⟩ := named.known cte?
          simp only [cte?] at run
          obtain rfl := Except.ok.inj run
          have shape_eq : relationShape catalog shapes (.table name alias_) =
              (alias_.getD (objectNameToString name), shape) := by
            simp only [relationShape, known]
          rw [shape_eq]
          refine ⟨?_, ?_, ?_⟩
          · rw [hasShape.width, Scope.qualified, List.length_map, width]
          · rw [Scope.map_table_qualified, width]
            simp
          · simpa using hasShape.wellIndexed
      | none =>
          simp only [cte?] at run
          obtain ⟨table, lookup, same⟩ := Outcome.bind_eq_ok.mp run
          obtain rfl := Except.ok.inj same
          have table? := Outcome.orErr_eq_ok.mp lookup
          have shape_eq : relationShape catalog shapes (.table name alias_) =
              (alias_.getD table.name, ⟨table.columns.length, true⟩) := by
            simp only [relationShape, named.unknown cte?, table?]
          rw [shape_eq]
          have tables := map_table_aliasedScope table alias_
          refine ⟨?_, ?_, ?_⟩
          · have width := congrArg List.length tables
            rw [List.length_map, List.length_replicate] at width
            rw [width]
            simp [scanFor, LogicalPlan.columns]
          · rw [tables]
            simp
          · simp [scanFor, LogicalPlan.WellIndexed]

/-- What an expression of a join resolves to is within the rows of both sides. -/
theorem joinCondition_within {combined : Scope} {op : Option (JoinOperator Sub)}
    {condition : Option (Expr Sub) × Bool} {n m : Nat}
    (run : joinCondition combined op n = .ok condition m) : OptionWithin combined.length condition.1 := by
  match op with
  | none | some .cross =>
      obtain ⟨rfl, _⟩ := Exec.pure_eq_ok.mp run
      trivial
  | some (.innerOn e) | some (.leftOuterOn e) =>
      obtain ⟨made, _, resolved, rest⟩ := Exec.bind_eq_ok.mp run
      obtain ⟨rfl, _⟩ := Exec.pure_eq_ok.mp rest
      exact resolveExpr_within resolved
  | some (.other debug) => exact absurd run (by simp [joinCondition])

theorem joinStep_shape {left right made : LogicalPlan Sub × Scope} {relations more : List (Text × Shape)}
    {op : Option (JoinOperator Sub)} {n m : Nat} (ofLeft : OfRelations left relations)
    (ofRight : OfRelations right more) (run : joinStep left right op n = .ok made m) :
    OfRelations made (relations ++ more) := by
  obtain ⟨⟨predicate, leftOuter⟩, _, condition, rest⟩ := Exec.bind_eq_ok.mp run
  obtain ⟨rfl, _⟩ := Exec.pure_eq_ok.mp rest
  have within := joinCondition_within condition
  have width : (Scope.columnInfos (left.2 ++ right.2)).length = (left.2 ++ right.2).length :=
    List.length_map ..
  refine ⟨width, ?_, ?_⟩
  · rw [List.map_append, List.flatMap_append, ofLeft.tables, ofRight.tables]
  · have sides : (Scope.columnInfos (left.2 ++ right.2)).length =
        left.1.columns.length + right.1.columns.length := by
      rw [width, List.length_append, ofLeft.width, ofRight.width]
    have inside : OptionWithin (Scope.columnInfos (left.2 ++ right.2)).length predicate := by
      rw [width]
      exact within
    rw [List.all_append, Bool.and_eq_true, ← ofLeft.wellIndexed, ← ofRight.wellIndexed]
    exact ⟨fun indexed => ⟨indexed.1, indexed.2.1⟩, fun both => ⟨both.1, both.2, sides, inside⟩⟩

theorem planJoins_shape (named : ctes.HasShapes shapes) {joins : List (Join Sub)}
    {acc made : LogicalPlan Sub × Scope} {relations : List (Text × Shape)} {n m : Nat}
    (ofAcc : OfRelations acc relations) (run : planJoins catalog ctes joins acc n = .ok made m) :
    OfRelations made
      (relations ++ joins.map fun join => relationShape catalog shapes join.relation) := by
  induction joins generalizing acc relations n with
  | nil =>
      obtain ⟨rfl, _⟩ := Exec.pure_eq_ok.mp run
      simpa using ofAcc
  | cons join joins ih =>
      obtain ⟨right, _, resolved, rest⟩ := Exec.bind_eq_ok.mp run
      obtain ⟨joined, _, step, rest⟩ := Exec.bind_eq_ok.mp rest
      have ofRight := resolveRelation_shape named (Exec.lift_eq_ok.mp resolved).1
      have later := ih (joinStep_shape ofAcc ofRight step) rest
      rwa [List.append_assoc] at later

theorem planEntries_shape (named : ctes.HasShapes shapes) {entries : List (TableWithJoins Sub)}
    {acc made : LogicalPlan Sub × Scope} {relations : List (Text × Shape)} {n m : Nat}
    (ofAcc : OfRelations acc relations)
    (run : planEntries catalog ctes entries (some acc) n = .ok made m) :
    OfRelations made (relations ++ entries.flatMap (entryShapes catalog shapes)) := by
  induction entries generalizing acc relations n with
  | nil =>
      obtain ⟨rfl, _⟩ := Exec.pure_eq_ok.mp run
      simpa using ofAcc
  | cons entry entries ih =>
      obtain ⟨scan, _, resolved, rest⟩ := Exec.bind_eq_ok.mp run
      obtain ⟨joined, _, step, rest⟩ := Exec.bind_eq_ok.mp rest
      obtain ⟨all, _, joins, rest⟩ := Exec.bind_eq_ok.mp rest
      have ofScan := resolveRelation_shape named (Exec.lift_eq_ok.mp resolved).1
      have later := ih (planJoins_shape named (joinStep_shape ofAcc ofScan step) joins) rest
      simpa [entryShapes] using later

theorem Resolve.alone_eq_ok {α : Type} {code : Resolve α} {value : α} :
    Resolve.alone code = .ok value ↔ ∃ m, code 0 = .ok value m := by
  unfold Resolve.alone
  cases code 0 with
  | ok made m => simp
  | error fault m => simp

theorem planFrom_shape (named : ctes.HasShapes shapes) {select : Select Sub}
    {made : LogicalPlan Sub × Scope} (run : planFrom catalog ctes select = .ok made) :
    OfRelations made (select.from_.flatMap (entryShapes catalog shapes)) := by
  obtain ⟨m, run⟩ := Resolve.alone_eq_ok.mp run
  cases entries : select.from_ with
  | nil =>
      rw [entries] at run
      obtain ⟨rfl, _⟩ := Exec.pure_eq_ok.mp run
      exact ⟨rfl, rfl, by simp [LogicalPlan.WellIndexed]⟩
  | cons entry rest =>
      rw [entries] at run
      obtain ⟨scan, _, resolved, later⟩ := Exec.bind_eq_ok.mp run
      obtain ⟨joined, _, first, later⟩ := Exec.bind_eq_ok.mp later
      obtain ⟨rfl, _⟩ := Exec.pure_eq_ok.mp first
      obtain ⟨all, _, joins, later⟩ := Exec.bind_eq_ok.mp later
      have ofScan := resolveRelation_shape named (Exec.lift_eq_ok.mp resolved).1
      have ofAll := planEntries_shape named (planJoins_shape named ofScan joins) later
      simpa [entryShapes] using ofAll

end

/-! ## The select list -/

namespace OfRelations

variable {found : LogicalPlan Sub × Scope} {relations : List (Text × Shape)}

theorem length_scope (ofRelations : OfRelations found relations) :
    found.2.length = widthOf relations := by
  have lengths := congrArg List.length ofRelations.tables
  rw [List.length_map] at lengths
  rw [lengths, List.length_flatMap, widthOf]
  simp

/-- The columns of a table are those of the relations of its name. -/
theorem countP_isOf (ofRelations : OfRelations found relations) (table : Text) :
    found.2.countP (fun c => c.isOf table) =
      widthOf (relations.filter fun r => Text.toAsciiLowercase r.1 = Text.toAsciiLowercase table) := by
  have named : ∀ c : ScopeCol, c.isOf table =
      ((fun t : Option Text => t.any fun x => Text.toAsciiLowercase x = Text.toAsciiLowercase table) ∘
        ScopeCol.table) c := fun _ => rfl
  rw [List.countP_congr fun c _ => by rw [named c], ← List.countP_map, ofRelations.tables]
  clear ofRelations
  induction relations with
  | nil => rfl
  | cons r relations ih =>
      rw [List.flatMap_cons, List.countP_append, ih, List.countP_replicate, List.filter_cons,
        Option.any_some]
      by_cases same : Text.toAsciiLowercase r.1 = Text.toAsciiLowercase table
      · simp [same, widthOf]
      · simp [same, widthOf]

end OfRelations

theorem length_expandWildcard (scope : Scope) (asked : ScopeCol → Bool) :
    (expandWildcard scope asked : List (Expr Sub × ColumnInfo)).length = scope.countP asked := by
  rw [expandWildcard, List.length_map, ← List.countP_eq_length_filter]
  conv_rhs => rw [← List.zipIdx_map_fst 0 scope]
  rw [List.countP_map]
  rfl

theorem expandWildcard_within {scope : Scope} {asked : ScopeCol → Bool} {column : Expr Sub × ColumnInfo}
    (member : column ∈ expandWildcard scope asked) : column.1.Within scope.length := by
  obtain ⟨⟨c, i⟩, among, rfl⟩ := List.mem_map.mp member
  obtain ⟨_, below, _⟩ := List.mem_zipIdx (List.mem_of_mem_filter among)
  change i < scope.length
  omega

section

variable {display : SqlDisplay Sub} {found : LogicalPlan Sub × Scope} {relations : List (Text × Shape)}

/-- An item stands for as many columns as are counted for it. -/
theorem projection_shape (ofRelations : OfRelations found relations) {item : SelectItem Sub}
    {made : List (Expr Sub × ColumnInfo)} {n m : Nat}
    (run : projection display found.2 item n = .ok made m) :
    made.length = itemWidth relations item ∧ ∀ column ∈ made, column.1.Within found.2.length := by
  have single : ∀ {e : SqlExpr Sub} {name : Text}, projectItem found.2 e name n = .ok made m →
      made.length = 1 ∧ ∀ column ∈ made, column.1.Within found.2.length := by
    intro e name run
    obtain ⟨expr, _, resolved, rest⟩ := Exec.bind_eq_ok.mp run
    obtain ⟨rfl, _⟩ := Exec.pure_eq_ok.mp rest
    refine ⟨rfl, fun column member => ?_⟩
    obtain rfl := List.mem_singleton.mp member
    exact resolveExpr_within resolved
  cases item with
  | wildcard =>
      obtain ⟨rfl, _⟩ := Exec.pure_eq_ok.mp run
      refine ⟨?_, fun column => expandWildcard_within⟩
      rw [length_expandWildcard, List.countP_true]
      exact ofRelations.length_scope
  | qualifiedWildcard name =>
      obtain ⟨rfl, _⟩ := Exec.pure_eq_ok.mp run
      refine ⟨?_, fun column => expandWildcard_within⟩
      rw [length_expandWildcard]
      exact ofRelations.countP_isOf _
  | unnamedExpr e => exact single run
  | exprWithAlias e alias_ => exact single run

theorem collectProjection_shape (ofRelations : OfRelations found relations)
    {items : List (SelectItem Sub)} {made : List (Expr Sub × ColumnInfo)} {n m : Nat}
    (run : collectProjection display found.2 items n = .ok made m) :
    made.length = (items.map (itemWidth relations)).sum ∧
      ∀ column ∈ made, column.1.Within found.2.length := by
  induction items generalizing made n m with
  | nil =>
      obtain ⟨rfl, _⟩ := Exec.pure_eq_ok.mp run
      exact ⟨rfl, fun column member => by cases member⟩
  | cons item items ih =>
      obtain ⟨first, _, head, rest⟩ := Exec.bind_eq_ok.mp run
      obtain ⟨others, _, tail, rest⟩ := Exec.bind_eq_ok.mp rest
      obtain ⟨rfl, _⟩ := Exec.pure_eq_ok.mp rest
      obtain ⟨length, within⟩ := projection_shape ofRelations head
      obtain ⟨lengths, others_within⟩ := ih tail
      refine ⟨?_, fun column member => ?_⟩
      · rw [List.length_append, length, lengths, List.map_cons, List.sum_cons]
      · rcases List.mem_append.mp member with here | later
        · exact within column here
        · exact others_within column later

/-- A projection of columns within the rows it is given. -/
theorem project_wellIndexed {node : LogicalPlan Sub} {projected : List (Expr Sub × ColumnInfo)}
    (within : ∀ column ∈ projected, column.1.Within node.columns.length) :
    (project node projected).WellIndexed ↔ node.WellIndexed := by
  refine ⟨And.left, fun indexed => ⟨indexed, ?_, ?_⟩⟩
  · refine listWithin_iff.mpr fun item member => ?_
    obtain ⟨column, among, rfl⟩ := List.mem_map.mp member
    exact within column among
  · rw [List.length_map, List.length_map]

/-! ## Aggregates -/

theorem aggregateArg_within {scope : Scope} {message : Text} {arg : Option (FunctionArg (SqlExpr Sub))}
    {made : Option (Expr Sub)} {n m : Nat} (run : aggregateArg scope message arg n = .ok made m) :
    OptionWithin scope.length made := by
  match arg with
  | some (.unnamed e) =>
      obtain ⟨expr, _, resolved, rest⟩ := Exec.bind_eq_ok.mp run
      obtain ⟨rfl, _⟩ := Exec.pure_eq_ok.mp rest
      exact resolveExpr_within resolved
  | none =>
      obtain ⟨rfl, _⟩ := Exec.pure_eq_ok.mp run
      trivial
  | some (.named _) | some .wildcard | some .other => exact absurd run (by simp [aggregateArg])

theorem tryAggregate_within {scope : Scope} {e : SqlExpr Sub} {agg : AggExpr (Expr Sub)} {n m : Nat}
    (run : tryAggregate scope e n = .ok (some agg) m) : agg.Within scope.length := by
  cases e with
  | function name distinct args =>
      rw [tryAggregate] at run
      split at run
      · cases (Exec.pure_eq_ok.mp run).1
      · split at run
        · obtain ⟨same, _⟩ := Exec.pure_eq_ok.mp run
          obtain rfl := Option.some.inj same
          exact ⟨trivial, trivial⟩
        · obtain ⟨arg, _, first, rest⟩ := Exec.bind_eq_ok.mp run
          have made : ∀ {sep : Option (Expr Sub)} {n : Nat}, OptionWithin scope.length sep →
              (do return some ⟨← Exec.lift (aggFunc (Text.toAsciiUppercase (objectNameToString name))),
                arg, distinct, sep⟩ : Resolve (Option (AggExpr (Expr Sub)))) n = .ok (some agg) m →
              agg.Within scope.length := by
            intro sep n within rest
            obtain ⟨func, _, _, rest⟩ := Exec.bind_eq_ok.mp rest
            obtain ⟨same, _⟩ := Exec.pure_eq_ok.mp rest
            obtain rfl := Option.some.inj same
            exact ⟨aggregateArg_within first, within⟩
          split at rest
          · obtain ⟨sep, _, second, rest⟩ := Exec.bind_eq_ok.mp rest
            exact made (aggregateArg_within second) rest
          · exact @made none _ trivial rest
  | _ => cases (Exec.pure_eq_ok.mp run).1

/-- What has been made of a part of the select list of an aggregate. -/
structure Outputs.Sound (width : Nat) (outputs : Outputs Sub) : Prop where
  named : outputs.columns.length = outputs.output.length
  aggs : ∀ agg ∈ outputs.aggs, agg.Within width
  output : ∀ col ∈ outputs.output, col.Within width outputs.aggs.length
  aliases : ∀ {name : Text} {e : Expr Sub}, outputs.aliases.get? name = some e →
    e.Within (width + outputs.aggs.length)

theorem OutputCol.Within.mono {width aggs more : Nat} (le : aggs ≤ more) {col : OutputCol (Expr Sub)}
    (within : col.Within width aggs) : col.Within width more := by
  cases col with
  | expr e => exact within
  | agg i => exact lt_of_lt_of_le (show i < aggs from within) le

theorem addOutput_sound {scope : Scope} {outputs made : Outputs Sub} {item : SelectItem Sub} {n m : Nat}
    (sound : outputs.Sound scope.length) (run : addOutput display scope outputs item n = .ok made m) :
    made.Sound scope.length ∧ made.output.length = outputs.output.length + 1 := by
  obtain ⟨⟨e, name⟩, _, _, rest⟩ := Exec.bind_eq_ok.mp run
  obtain ⟨agg?, _, tried, rest⟩ := Exec.bind_eq_ok.mp rest
  have named : ∀ col, (outputs.columns ++ [(⟨name, none, none⟩ : ColumnInfo)]).length =
      (outputs.output ++ [col]).length := by
    intro col
    rw [List.length_append, List.length_append, sound.named]
    rfl
  cases agg? with
  | some agg =>
      obtain ⟨rfl, _⟩ := Exec.pure_eq_ok.mp rest
      refine ⟨⟨named _, ?_, ?_, ?_⟩, List.length_append ..⟩
      · intro other member
        rcases List.mem_append.mp member with earlier | here
        · exact sound.aggs other earlier
        · obtain rfl := List.mem_singleton.mp here
          exact tryAggregate_within tried
      · intro col member
        rw [List.length_append]
        rcases List.mem_append.mp member with earlier | here
        · exact (sound.output col earlier).mono (Nat.le_add_right ..)
        · obtain rfl := List.mem_singleton.mp here
          exact Nat.lt_succ_self _
      · intro other e' found
        rw [FiniteMap.get?_insert] at found
        rw [List.length_append]
        split at found
        · obtain rfl := Option.some.inj found
          change scope.length + outputs.aggs.length < scope.length + (outputs.aggs.length + 1)
          omega
        · refine (sound.aliases found).mono ?_
          omega
  | none =>
      obtain ⟨resolved, _, resolution, rest⟩ := Exec.bind_eq_ok.mp rest
      obtain ⟨rfl, _⟩ := Exec.pure_eq_ok.mp rest
      have within := resolveExpr_within resolution
      refine ⟨⟨named _, sound.aggs, ?_, ?_⟩, List.length_append ..⟩
      · intro col member
        rcases List.mem_append.mp member with earlier | here
        · exact sound.output col earlier
        · obtain rfl := List.mem_singleton.mp here
          exact within
      · intro other e' found
        rw [FiniteMap.get?_insert] at found
        split at found
        · obtain rfl := Option.some.inj found
          exact within.mono (Nat.le_add_right ..)
        · exact sound.aliases found

theorem collectOutputs_sound {scope : Scope} {items : List (SelectItem Sub)} {outputs made : Outputs Sub}
    {n m : Nat} (sound : outputs.Sound scope.length)
    (run : collectOutputs display scope items outputs n = .ok made m) :
    made.Sound scope.length ∧ made.output.length = outputs.output.length + items.length := by
  induction items generalizing outputs n with
  | nil =>
      obtain ⟨rfl, _⟩ := Exec.pure_eq_ok.mp run
      exact ⟨sound, rfl⟩
  | cons item items ih =>
      obtain ⟨next, _, step, rest⟩ := Exec.bind_eq_ok.mp run
      obtain ⟨nextSound, length⟩ := addOutput_sound sound step
      obtain ⟨madeSound, lengths⟩ := ih nextSound rest
      refine ⟨madeSound, ?_⟩
      rw [lengths, length, List.length_cons]
      omega

/-- What a HAVING predicate has become, and the aggregates with those it added. -/
structure HavingSound (width : Nat) (aggs : List (AggExpr (Expr Sub)))
    (made : Expr Sub × List (AggExpr (Expr Sub))) : Prop where
  within : made.1.Within (width + made.2.length)
  grown : aggs.length ≤ made.2.length
  aggs : ∀ agg ∈ made.2, agg.Within width

/-- A HAVING predicate reads the columns of a row of a group and the aggregates behind them. -/
theorem resolveHaving_sound {scope : Scope} {aliases : FiniteMap Text (Expr Sub)} {e : SqlExpr Sub}
    {aggs : List (AggExpr (Expr Sub))} {made : Expr Sub × List (AggExpr (Expr Sub))} {n m : Nat}
    (named : ∀ {name : Text} {e : Expr Sub}, aliases.get? name = some e →
      e.Within (scope.length + aggs.length))
    (sound : ∀ agg ∈ aggs, agg.Within scope.length)
    (run : resolveHaving scope aliases e aggs n = .ok made m) : HavingSound scope.length aggs made := by
  rw [resolveHaving.eq_def] at run
  obtain ⟨agg?, between, tried, rest⟩ := Exec.bind_eq_ok.mp run
  have plain : ∀ {e : SqlExpr Sub} {made : Expr Sub × List (AggExpr (Expr Sub))},
      (do return (← resolveExpr scope e, aggs) : Resolve _) between = .ok made m →
      HavingSound scope.length aggs made := by
    intro e made run
    obtain ⟨expr, _, resolved, rest⟩ := Exec.bind_eq_ok.mp run
    obtain ⟨rfl, _⟩ := Exec.pure_eq_ok.mp rest
    exact ⟨(resolveExpr_within resolved).mono (Nat.le_add_right ..), le_rfl, sound⟩
  cases agg? with
  | some agg =>
      obtain ⟨rfl, _⟩ := Exec.pure_eq_ok.mp rest
      have length : (aggs ++ [agg]).length = aggs.length + 1 := List.length_append ..
      have grown : aggs.length ≤ (aggs ++ [agg]).length := by omega
      refine ⟨?_, grown, fun other member => ?_⟩
      · change scope.length + aggs.length < scope.length + (aggs ++ [agg]).length
        omega
      · rcases List.mem_append.mp member with earlier | here
        · exact sound other earlier
        · obtain rfl := List.mem_singleton.mp here
          exact tryAggregate_within tried
  | none =>
      cases e with
      | nested inner => exact resolveHaving_sound (e := inner) named sound rest
      | binaryOp left op right =>
          obtain ⟨op', _, _, rest⟩ := Exec.bind_eq_ok.mp rest
          obtain ⟨⟨l, more⟩, _, first, rest⟩ := Exec.bind_eq_ok.mp rest
          obtain ⟨⟨r, all⟩, _, second, rest⟩ := Exec.bind_eq_ok.mp rest
          obtain ⟨rfl, _⟩ := Exec.pure_eq_ok.mp rest
          have ofLeft := resolveHaving_sound (e := left) named sound first
          have wider : scope.length + aggs.length ≤ scope.length + more.length := by
            have grown : aggs.length ≤ more.length := ofLeft.grown
            omega
          have ofRight := resolveHaving_sound (e := right) (fun found => (named found).mono wider)
            ofLeft.aggs second
          have widest : scope.length + more.length ≤ scope.length + all.length := by
            have grown : more.length ≤ all.length := ofRight.grown
            omega
          exact ⟨⟨ofLeft.within.mono widest, ofRight.within⟩, ofLeft.grown.trans ofRight.grown, ofRight.aggs⟩
      | unaryOp op expr =>
          obtain ⟨⟨inner, all⟩, _, first, rest⟩ := Exec.bind_eq_ok.mp rest
          obtain ⟨made', _, applied, rest⟩ := Exec.bind_eq_ok.mp rest
          obtain ⟨rfl, _⟩ := Exec.pure_eq_ok.mp rest
          have ofInner := resolveHaving_sound (e := expr) named sound first
          exact ⟨mapUnop_within ofInner.within (Exec.lift_eq_ok.mp applied).1, ofInner.grown, ofInner.aggs⟩
      | identifier id =>
          cases known : scope.knows id with
          | true =>
              simp only [known] at rest
              exact plain rest
          | false =>
              cases alias_ : aliases.get? (Text.toAsciiLowercase id) with
              | none =>
                  simp only [known, alias_] at rest
                  exact plain rest
              | some ex =>
                  simp only [known, alias_] at rest
                  obtain ⟨rfl, _⟩ := Exec.pure_eq_ok.mp rest
                  exact ⟨named alias_, le_rfl, sound⟩
      | _ => exact plain rest
termination_by structural e

theorem planAggregate_shape {input made : LogicalPlan Sub} {select : Select Sub} {scope : Scope} {n m : Nat}
    (width : input.columns.length = scope.length)
    (run : planAggregate display input select scope n = .ok made m) :
    made.columns.length = select.projection.length ∧ (made.WellIndexed ↔ input.WellIndexed) := by
  obtain ⟨groupBy, _, keys, rest⟩ := Exec.bind_eq_ok.mp run
  obtain ⟨outputs, _, collected, rest⟩ := Exec.bind_eq_ok.mp rest
  have groupsWithin := resolveList_within keys
  have start : (⟨[], [], [], .empty⟩ : Outputs Sub).Sound scope.length :=
    ⟨rfl, fun agg none => (nomatch none), fun col none => (nomatch none), fun none => (nomatch none)⟩
  obtain ⟨sound, outputLength⟩ := collectOutputs_sound start collected
  have columns : outputs.columns.length = select.projection.length := by
    rw [sound.named, outputLength]
    exact Nat.zero_add _
  cases having? : select.having with
  | none =>
      simp only [having?] at rest
      obtain ⟨rfl, _⟩ := Exec.pure_eq_ok.mp rest
      exact ⟨columns, And.left, fun indexed =>
        ⟨indexed, width.symm, sound.named.symm, groupsWithin, sound.aggs, sound.output, trivial⟩⟩
  | some h =>
      simp only [having?] at rest
      obtain ⟨⟨having, aggs⟩, _, resolved, rest⟩ := Exec.bind_eq_ok.mp rest
      obtain ⟨rfl, _⟩ := Exec.pure_eq_ok.mp rest
      have havingSound := resolveHaving_sound sound.aliases sound.aggs resolved
      exact ⟨columns, And.left, fun indexed =>
        ⟨indexed, width.symm, sound.named.symm, groupsWithin, havingSound.aggs,
          fun col member => (sound.output col member).mono havingSound.grown, havingSound.within⟩⟩

/-! ## ORDER BY and LIMIT -/

theorem applyLimit_shape {node made : LogicalPlan Sub} {limit offset : Option (SqlExpr Sub)} {shape : Shape}
    (hasShape : node.HasShape shape) (run : applyLimit display node limit offset = .ok made) :
    made.HasShape shape := by
  have limited : ∀ (limit : Option UInt64) (offset : UInt64),
      (if limit.isSome ∨ 0 < offset then .limit node limit offset else node : LogicalPlan Sub).HasShape
        shape := by
    intro limit offset
    split
    · exact ⟨hasShape.width, hasShape.wellIndexed⟩
    · exact hasShape
  have skipped : ∀ (limit : Option UInt64) (skip : SqlExpr Sub),
      (do
        let offset := UInt64.ofNat (← constU64 display skip)
        return if limit.isSome ∨ 0 < offset then .limit node limit offset else node :
        Outcome SqlError (LogicalPlan Sub)) = .ok made → made.HasShape shape := by
    intro limit skip run
    obtain ⟨_, _, rest⟩ := Outcome.bind_eq_ok.mp run
    obtain rfl := Outcome.pure_eq_ok.mp rest
    exact limited _ _
  cases limit with
  | none =>
      cases offset with
      | none =>
          obtain rfl := Outcome.pure_eq_ok.mp run
          exact limited none 0
      | some skip => exact skipped none skip run
  | some most =>
      obtain ⟨limit, _, run⟩ := Outcome.bind_eq_ok.mp run
      cases offset with
      | none =>
          obtain rfl := Outcome.pure_eq_ok.mp run
          exact limited _ 0
      | some skip => exact skipped _ skip run

theorem distinctIf_shape {node : LogicalPlan Sub} {shape : Shape} (hasShape : node.HasShape shape)
    (distinct : Bool) : (distinctIf distinct node).HasShape shape := by
  cases distinct with
  | true => exact ⟨hasShape.width, hasShape.wellIndexed⟩
  | false => exact hasShape

/-- A number in an ORDER BY over output rows stands for a column if it is not too large. -/
theorem outputKey_within_iff {scope : Scope} {e : SqlExpr Sub} {made : Expr Sub} {n m : Nat}
    (run : outputKey scope e n = .ok made m) :
    made.Within scope.length ↔ ((ordinal e).all fun idx => idx ≤ scope.length) = true := by
  cases ordinal? : ordinal e with
  | some idx =>
      have positive : 1 ≤ idx := by
        unfold ordinal at ordinal?
        split at ordinal?
        · exact of_decide_eq_true (Option.filter_eq_some_iff.mp ordinal?).2
        · cases ordinal?
      simp only [outputKey, ordinal?] at run
      obtain ⟨rfl, _⟩ := Exec.pure_eq_ok.mp run
      rw [Option.all_some, decide_eq_true_iff]
      change idx - 1 < scope.length ↔ idx ≤ scope.length
      omega
  | none =>
      simp only [outputKey, ordinal?] at run
      exact ⟨fun _ => rfl, fun _ => resolveExpr_within run⟩

theorem planSortKeys_within_iff {scope : Scope} {order : List (OrderByExpr Sub)}
    {made : List (SortKey (Expr Sub))} {n m : Nat} (run : planSortKeys (outputKey scope) order n = .ok made m) :
    (∀ key ∈ made, key.expr.Within scope.length) ↔
      (order.all fun ob => (ordinal ob.expr).all fun idx => idx ≤ scope.length) = true := by
  induction order generalizing made n m with
  | nil =>
      obtain ⟨rfl, _⟩ := Exec.pure_eq_ok.mp run
      exact ⟨fun _ => rfl, fun _ key none => by cases none⟩
  | cons ob order ih =>
      obtain ⟨expr, _, first, rest⟩ := Exec.bind_eq_ok.mp run
      obtain ⟨others, _, second, rest⟩ := Exec.bind_eq_ok.mp rest
      obtain ⟨rfl, _⟩ := Exec.pure_eq_ok.mp rest
      rw [List.all_cons, Bool.and_eq_true, ← outputKey_within_iff first, ← ih second, List.forall_mem_cons]

theorem projectedKey_within {scope : Scope} {projected : List (Expr Sub × ColumnInfo)} {e : SqlExpr Sub}
    {made : Expr Sub} {n m : Nat} (within : ∀ column ∈ projected, column.1.Within scope.length)
    (run : projectedKey scope projected e n = .ok made m) : made.Within scope.length := by
  cases ordinal? : ordinal e with
  | some idx =>
      simp only [projectedKey, ordinal?] at run
      obtain ⟨column, found, rfl⟩ := Option.map_eq_some_iff.mp (Outcome.orErr_eq_ok.mp (Exec.lift_eq_ok.mp run).1)
      exact within column (List.mem_of_getElem? found)
  | none =>
      cases alias? : aliasExpr scope projected e with
      | some ex =>
          simp only [projectedKey, ordinal?, alias?] at run
          obtain ⟨rfl, _⟩ := Exec.pure_eq_ok.mp run
          unfold aliasExpr at alias?
          split at alias?
          · split at alias?
            · cases alias?
            · obtain ⟨column, found, rfl⟩ := Option.map_eq_some_iff.mp alias?
              exact within column (List.mem_of_find?_eq_some found)
          · cases alias?
      | none =>
          simp only [projectedKey, ordinal?, alias?] at run
          exact resolveExpr_within run

theorem planSortKeys_within {width : Nat} {key : SqlExpr Sub → Resolve (Expr Sub)}
    (within : ∀ {e : SqlExpr Sub} {made : Expr Sub} {n m : Nat}, key e n = .ok made m → made.Within width)
    {order : List (OrderByExpr Sub)} {made : List (SortKey (Expr Sub))} {n m : Nat}
    (run : planSortKeys key order n = .ok made m) : ∀ key ∈ made, key.expr.Within width := by
  induction order generalizing made n m with
  | nil =>
      obtain ⟨rfl, _⟩ := Exec.pure_eq_ok.mp run
      exact fun key none => by cases none
  | cons ob order ih =>
      obtain ⟨expr, _, first, rest⟩ := Exec.bind_eq_ok.mp run
      obtain ⟨others, _, second, rest⟩ := Exec.bind_eq_ok.mp rest
      obtain ⟨rfl, _⟩ := Exec.pure_eq_ok.mp rest
      exact List.forall_mem_cons.mpr ⟨within first, ih second⟩

theorem applyOrderLimit_shape {node made : LogicalPlan Sub} {orderBy : Option (List (OrderByExpr Sub))}
    {limit offset : Option (SqlExpr Sub)} {shape : Shape} {n m : Nat} (hasShape : node.HasShape shape)
    (run : applyOrderLimit display node orderBy limit offset n = .ok made m) :
    made.HasShape ⟨shape.width, shape.fits && numbersFit shape.width orderBy⟩ := by
  cases orderBy with
  | none =>
      refine applyLimit_shape ⟨hasShape.width, ?_⟩ (Exec.lift_eq_ok.mp run).1
      rw [hasShape.wellIndexed]
      simp [numbersFit]
  | some order =>
      obtain ⟨keys, _, planned, rest⟩ := Exec.bind_eq_ok.mp run
      have width : (outputScope node.columns).length = shape.width := by
        rw [outputScope, List.length_map, hasShape.width]
      have fit := planSortKeys_within_iff planned
      rw [width] at fit
      have sorted : (LogicalPlan.sort node keys).WellIndexed ↔
          (shape.fits && numbersFit shape.width (some order)) = true := by
        rw [Bool.and_eq_true, ← hasShape.wellIndexed, numbersFit, Option.all_some, ← fit, ← hasShape.width]
        rfl
      have sortedShape : (LogicalPlan.sort node keys).HasShape
          ⟨shape.width, shape.fits && numbersFit shape.width (some order)⟩ := ⟨hasShape.width, sorted⟩
      exact applyLimit_shape sortedShape (Exec.lift_eq_ok.mp rest).1

end

/-! ## Queries -/

section

variable {display : SqlDisplay Sub} {catalog : Catalog} {ctes : CteMap Sub} {shapes : Shapes}

theorem planSource_shape (named : ctes.HasShapes shapes) {select : Select Sub}
    {found : LogicalPlan Sub × Scope} {n m : Nat} (run : planSource catalog ctes select n = .ok found m) :
    OfRelations found (select.from_.flatMap (entryShapes catalog shapes)) := by
  obtain ⟨⟨node, scope⟩, _, from_, rest⟩ := Exec.bind_eq_ok.mp run
  have ofRelations := planFrom_shape named (Exec.lift_eq_ok.mp from_).1
  cases selection : select.selection with
  | none =>
      simp only [selection] at rest
      obtain ⟨rfl, _⟩ := Exec.pure_eq_ok.mp rest
      exact ofRelations
  | some pred =>
      simp only [selection] at rest
      obtain ⟨predicate, _, resolved, rest⟩ := Exec.bind_eq_ok.mp rest
      obtain ⟨rfl, _⟩ := Exec.pure_eq_ok.mp rest
      have within := resolveExpr_within resolved
      rw [← show node.columns.length = scope.length from ofRelations.width] at within
      refine ⟨ofRelations.width, ofRelations.tables, ?_⟩
      rw [← ofRelations.wellIndexed]
      exact ⟨And.left, fun indexed => ⟨indexed, within⟩⟩

/-- The select list over the rows of FROM and WHERE. -/
theorem project_shape {found : LogicalPlan Sub × Scope} {select : Select Sub}
    {projected : List (Expr Sub × ColumnInfo)} {sorted : LogicalPlan Sub} {n m : Nat}
    (ofRelations : OfRelations found (select.from_.flatMap (entryShapes catalog shapes)))
    (plain : select.hasAggregate = false)
    (run : collectProjection display found.2 select.projection n = .ok projected m)
    (sameColumns : sorted.columns = found.1.columns)
    (sameIndexed : sorted.WellIndexed ↔ found.1.WellIndexed) :
    (project sorted projected).HasShape (selectShape catalog shapes select) := by
  obtain ⟨length, within⟩ := collectProjection_shape ofRelations run
  refine ⟨?_, ?_⟩
  · change (projected.map Prod.snd).length = _
    rw [List.length_map, length, selectShape, if_neg (by simp [plain])]
  · rw [project_wellIndexed fun column member => ?_, sameIndexed, ofRelations.wellIndexed]
    · rfl
    · rw [sameColumns, ofRelations.width]
      exact within column member

theorem aggregate_shape {found : LogicalPlan Sub × Scope} {select : Select Sub} {made : LogicalPlan Sub}
    {n m : Nat} (ofRelations : OfRelations found (select.from_.flatMap (entryShapes catalog shapes)))
    (grouped : select.hasAggregate = true)
    (run : planAggregate display found.1 select found.2 n = .ok made m) :
    made.HasShape (selectShape catalog shapes select) := by
  obtain ⟨length, indexed⟩ := planAggregate_shape ofRelations.width run
  refine ⟨?_, indexed.trans ofRelations.wellIndexed⟩
  rw [length, selectShape, if_pos grouped]

theorem planSelectCore_shape (named : ctes.HasShapes shapes) {select : Select Sub} {made : LogicalPlan Sub}
    {n m : Nat} (run : planSelectCore display catalog ctes select n = .ok made m) :
    made.HasShape (selectShape catalog shapes select) := by
  obtain ⟨⟨node, scope⟩, _, source, rest⟩ := Exec.bind_eq_ok.mp run
  have ofRelations := planSource_shape named source
  cases grouped : select.hasAggregate with
  | true =>
      simp only [grouped, if_true] at rest
      obtain ⟨aggregated, _, planned, rest⟩ := Exec.bind_eq_ok.mp rest
      obtain ⟨distinct, _, _, rest⟩ := Exec.bind_eq_ok.mp rest
      obtain ⟨rfl, _⟩ := Exec.pure_eq_ok.mp rest
      exact distinctIf_shape (aggregate_shape ofRelations grouped planned) distinct
  | false =>
      simp only [grouped, Bool.false_eq_true, if_false] at rest
      obtain ⟨projected, _, collected, rest⟩ := Exec.bind_eq_ok.mp rest
      obtain ⟨made', _, same, rest⟩ := Exec.bind_eq_ok.mp rest
      obtain ⟨rfl, _⟩ := Exec.pure_eq_ok.mp same
      obtain ⟨distinct, _, _, rest⟩ := Exec.bind_eq_ok.mp rest
      obtain ⟨rfl, _⟩ := Exec.pure_eq_ok.mp rest
      exact distinctIf_shape (project_shape ofRelations grouped collected rfl Iff.rfl) distinct

/-- The shape of a query that is a SELECT, with its ORDER BY. -/
theorem planSelectQuery_shape (named : ctes.HasShapes shapes) {select : Select Sub}
    {orderBy : Option (List (OrderByExpr Sub))} {limit offset : Option (SqlExpr Sub)}
    {made : LogicalPlan Sub} {n m : Nat}
    (run : planSelectQuery display catalog ctes select orderBy limit offset n = .ok made m) :
    made.HasShape ⟨(selectShape catalog shapes select).width, (selectShape catalog shapes select).fits &&
      (!select.hasAggregate || numbersFit (selectShape catalog shapes select).width orderBy)⟩ := by
  obtain ⟨⟨node, scope⟩, _, source, rest⟩ := Exec.bind_eq_ok.mp run
  obtain ⟨distinct, _, _, rest⟩ := Exec.bind_eq_ok.mp rest
  have ofRelations := planSource_shape named source
  cases grouped : select.hasAggregate with
  | true =>
      simp only [grouped, if_true] at rest
      obtain ⟨aggregated, _, planned, rest⟩ := Exec.bind_eq_ok.mp rest
      have hasShape := distinctIf_shape (aggregate_shape ofRelations grouped planned) distinct
      exact applyOrderLimit_shape hasShape rest
  | false =>
      simp only [grouped, Bool.false_eq_true, if_false] at rest
      obtain ⟨projected, _, collected, rest⟩ := Exec.bind_eq_ok.mp rest
      have within := (collectProjection_shape ofRelations collected).2
      simp only [Bool.not_false, Bool.true_or, Bool.and_true]
      cases orderBy with
      | none =>
          have hasShape := project_shape ofRelations grouped collected rfl Iff.rfl
          exact applyLimit_shape (distinctIf_shape hasShape distinct) (Exec.lift_eq_ok.mp rest).1
      | some order =>
          obtain ⟨keys, _, planned, rest⟩ := Exec.bind_eq_ok.mp rest
          have keysWithin := planSortKeys_within (projectedKey_within within) planned
          have sorted : (LogicalPlan.sort node keys).WellIndexed ↔ node.WellIndexed := by
            refine ⟨And.left, fun indexed => ⟨indexed, fun key member => ?_⟩⟩
            rw [show node.columns.length = scope.length from ofRelations.width]
            exact keysWithin key member
          have hasShape : (project (.sort node keys) projected).HasShape
              (selectShape catalog shapes select) := project_shape ofRelations grouped collected rfl sorted
          exact applyLimit_shape (distinctIf_shape hasShape distinct) (Exec.lift_eq_ok.mp rest).1

theorem setOpPlan_shape {op : SetOperator} {all : Bool} {left right made : LogicalPlan Sub}
    {first second : Shape} (ofLeft : left.HasShape first) (ofRight : right.HasShape second)
    (run : setOpPlan op all left right = .ok made) :
    made.HasShape ⟨first.width, first.fits && second.fits⟩ := by
  rw [setOpPlan] at run
  split at run
  · cases run
  · next same =>
    obtain rfl := Except.ok.inj run
    refine ⟨ofLeft.width, ?_⟩
    rw [Bool.and_eq_true, ← ofLeft.wellIndexed, ← ofRight.wellIndexed]
    exact ⟨fun indexed => ⟨indexed.1, indexed.2.1⟩,
      fun both => ⟨both.1, both.2, rfl, (not_not.mp same).symm⟩⟩

theorem length_cteColumns {name : Text} {names : List Text} {columns made : List ColumnInfo}
    (run : cteColumns name names columns = .ok made) : made.length = columns.length := by
  rw [cteColumns] at run
  split at run
  · obtain rfl := Except.ok.inj run
    rfl
  · split at run
    · cases run
    · next same =>
      obtain rfl := Except.ok.inj run
      rw [List.length_zipWith]
      omega

theorem CteMap.HasShapes.insert (named : ctes.HasShapes shapes) {key : Text} {cte : CteDef Sub} {shape : Shape}
    (hasShape : cte.plan.HasShape shape) (width : cte.scope.length = shape.width) :
    CteMap.HasShapes (FiniteMap.insert ctes key cte) (FiniteMap.insert shapes key shape) := by
  refine ⟨fun {other found} there => ?_, fun {other} missing => ?_⟩
  · rw [FiniteMap.get?_insert] at there ⊢
    split at there
    · next same =>
      obtain rfl := Option.some.inj there
      exact ⟨shape, if_pos same, hasShape, width⟩
    · next different =>
      rw [if_neg different]
      exact named.known there
  · rw [FiniteMap.get?_insert] at missing ⊢
    split at missing
    · cases missing
    · next different =>
      rw [if_neg different]
      exact named.unknown missing

end

section

variable {display : SqlDisplay Sub} {catalog : Catalog}

mutual

/-- A query is planned to a plan of its shape. -/
theorem planQueryWith_shape {q : SqlQuery Sub} {ctes : CteMap Sub} {shapes : Shapes} {made : LogicalPlan Sub}
    {n m : Nat} (named : ctes.HasShapes shapes)
    (run : planQueryWith display catalog q ctes n = .ok made m) :
    made.HasShape (queryShape catalog q shapes) := by
  cases q with
  | mk recursive ctes body orderBy limit offset =>
      rw [planQueryWith] at run
      split at run
      · exact absurd run (by simp)
      · obtain ⟨inner, _, built, rest⟩ := Exec.bind_eq_ok.mp run
        have innerNamed := buildCtes_shape named built
        cases body with
        | select s => exact planSelectQuery_shape innerNamed rest
        | setOperation op all left right =>
            obtain ⟨node, _, planned, rest⟩ := Exec.bind_eq_ok.mp rest
            exact applyOrderLimit_shape (planSetExpr_shape innerNamed planned) rest
        | query q | values rows | other display => exact absurd rest (by simp)
termination_by structural q

theorem buildCtes_shape {list : List (Cte Sub)} {ctes made : CteMap Sub} {shapes : Shapes} {n m : Nat}
    (named : ctes.HasShapes shapes) (run : buildCtes display catalog list ctes n = .ok made m) :
    made.HasShapes (cteShapes catalog list shapes) := by
  cases list with
  | nil =>
      obtain ⟨rfl, _⟩ := Exec.pure_eq_ok.mp run
      exact named
  | cons cte rest =>
      cases cte with
      | mk name names query =>
          obtain ⟨plan, _, planned, later⟩ := Exec.bind_eq_ok.mp run
          obtain ⟨columns, _, renamed, later⟩ := Exec.bind_eq_ok.mp later
          have hasShape := planQueryWith_shape named planned
          have width : (columns.map fun c => (⟨some name, c.name, c.declType⟩ : ScopeCol)).length =
              (queryShape catalog query shapes).width := by
            rw [List.length_map, length_cteColumns (Exec.lift_eq_ok.mp renamed).1, hasShape.width]
          have later := buildCtes_shape (named.insert hasShape width) later
          exact later
termination_by structural list

theorem planSetExpr_shape {body : SetExpr Sub} {ctes : CteMap Sub} {shapes : Shapes} {made : LogicalPlan Sub}
    {n m : Nat} (named : ctes.HasShapes shapes)
    (run : planSetExpr display catalog body ctes n = .ok made m) :
    made.HasShape (bodyShape catalog body shapes) := by
  cases body with
  | select s => exact planSelectCore_shape named run
  | query q => exact planQueryWith_shape named run
  | setOperation op all left right =>
      obtain ⟨l, _, first, rest⟩ := Exec.bind_eq_ok.mp run
      obtain ⟨r, _, second, rest⟩ := Exec.bind_eq_ok.mp rest
      exact setOpPlan_shape (planSetExpr_shape named first) (planSetExpr_shape named second)
        (Exec.lift_eq_ok.mp rest).1
  | values rows | other display => exact absurd run (by simp [planSetExpr])
termination_by structural body

end

end

end Squrust.Sql
