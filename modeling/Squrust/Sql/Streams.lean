import Squrust.Core.BTree.RowMap
import Squrust.Sql.Aggregate

/-!
# What the executors yield

One lemma for each operator: if its inputs yield these rows and its expressions
have these values on them, it yields those rows. A loop inside `next` is silent
steps, so each lemma follows the rows of the input, with the state of the operator
generalised to what it is after some of them.
-/

set_option autoImplicit false

namespace Squrust.Sql

open Squrust.Foundation

open Squrust.Foundation.Pull

open Squrust.Foundation.Exec (own modifyOwn onStore onInner)

variable {σ : Type} {keeps : σ → Prop}

/-- The executor, drained from its first state, gives these rows. -/
def Executor.Yields (keeps : σ → Prop) (exec : Executor σ) (rows : List Row) : Prop :=
  Pull.Yields keeps exec.next exec.start rows

namespace DualExec

theorem yields : Pull.Yields keeps next false [⟨0, []⟩] :=
  .item (fun store kept => ⟨store, kept, 0, fun _ _ => rfl⟩)
    (.done fun store kept => ⟨store, kept, 0, fun _ _ => rfl⟩)

end DualExec

namespace TableScan

open Squrust.Core

section

variable [PageSource σ] [MapSource σ] {seen : View PageId PageData} {root : PageId} {entries : Rows}
  {pages : List PageId}

/-- The first row at a key or behind it is that of the tree's rows. -/
theorem firstFrom_tree (tree : BTree.Tree seen root entries pages) (key : Int64) (store : σ)
    (same : view store = seen) :
    ∃ store', view store' = seen ∧ Exec.Returns (fun fuel => firstFrom fuel root key) store
      ((entries.filter fun entry => decide (key ≤ entry.1)).head?.map fun entry =>
        (entry.1, entry.2.val)) store' := by
  obtain ⟨depth, subtree, _⟩ := tree
  obtain ⟨cursor, size, remaining, seeks⟩ := BTreeCursor.seek_subtree (σ := σ) subtree
    ⟨Bound.bot_lt_key key, Bound.key_le_top _⟩ (.nil depth)
  obtain ⟨cursor', _, _, steps⟩ := BTreeCursor.next_remaining (σ := σ) remaining
  rw [List.append_nil] at steps
  have reads : BTree.Reads (fun fuel => do
      let cursor ← BTreeCursor.seek fuel root key
      return (← BTreeCursor.next fuel cursor).1) store
      ((entries.filter fun entry => decide (key ≤ entry.1)).head?.map fun entry =>
        (entry.1, entry.2.val)) := by
    refine (seeks store same).bind fun after same' => ?_
    exact (steps after (same'.trans same)).bind fun _ _ => .pure _
  obtain ⟨store', returns, same'⟩ := reads
  exact ⟨store', same'.trans same, returns.mapError⟩

variable {columns : List ColumnInfo} {rowidAlias : Option Nat} {defaults : List Value}
  {rowOf : Int64 × Record → Row}

omit [MapSource σ] in
theorem next_open (key : Int64) (fuel : Nat) (store : σ) :
    next root columns rowidAlias defaults fuel (store, ⟨key, false⟩) =
      (onStore (firstFrom fuel root key) >>= give columns.length rowidAlias defaults)
        (store, ⟨key, false⟩) := rfl

/-- **The scan** gives the rows of the records from its key on. -/
theorem yields (tree : BTree.Tree seen root entries pages) (key : Int64)
    (decodes : ∀ entry ∈ entries,
      row columns.length rowidAlias defaults entry.1 entry.2.val = .ok (rowOf entry)) :
    Pull.Yields (fun store : σ => view store = seen) (next root columns rowidAlias defaults)
      ⟨key, false⟩ ((entries.filter fun entry => decide (key ≤ entry.1)).map rowOf) := by
  have read := firstFrom_tree (σ := σ) tree
  have ascending := tree.ascending
  generalize rest_eq : (entries.filter fun entry => decide (key ≤ entry.1)) = rest
  induction rest generalizing key with
  | nil =>
      have reads := read key
      rw [rest_eq] at reads
      have found : Gives (fun store : σ => view store = seen)
          (fun fuel => onStore (firstFrom fuel root key)) (⟨key, false⟩ : State) none ⟨key, false⟩ :=
        .onStore reads
      exact .done (.of_eq (next_open key) (.bind found (.modifyOwn (.pure _ _))))
  | cons entry rest ih =>
      have reads := read key
      rw [rest_eq] at reads
      have found : Gives (fun store : σ => view store = seen)
          (fun fuel => onStore (firstFrom fuel root key)) (⟨key, false⟩ : State)
          (some (entry.1, entry.2.val)) ⟨key, false⟩ :=
        .onStore reads
      have inFilter : entry ∈ entries.filter fun entry => decide (key ≤ entry.1) :=
        rest_eq ▸ List.mem_cons_self
      obtain ⟨member, behind⟩ := List.mem_filter.mp inFilter
      have ordered : Ascending (entry :: rest) := rest_eq ▸ ascending.filter _
      have decoded := decodes entry member
      have step : Gives (fun store : σ => view store = seen)
          (fun _ => give columns.length rowidAlias defaults (some (entry.1, entry.2.val)))
          (⟨key, false⟩ : State) (some (rowOf entry))
          (if entry.1 = Int64.maxValue then ⟨key, true⟩ else ⟨entry.1 + 1, false⟩) := by
        refine fun store kept => ⟨store, kept, 0, fun _ _ => ?_⟩
        simp only [give, decoded, Exec.lift_ok_bind]
        split
        · rfl
        · rfl
      refine .item (.of_eq (next_open key) (.bind found step)) ?_
      by_cases last : entry.1 = Int64.maxValue
      · have none : rest = [] := by
          refine List.eq_nil_iff_forall_not_mem.mpr fun other inRest => ?_
          have above := (List.pairwise_cons.mp ordered).1 other inRest
          rw [last] at above
          exact absurd (Int64.le_maxValue other.1) (not_le.mpr above)
        subst none
        rw [if_pos last]
        exact .done (.of_eq (fun fuel store => rfl) (.pure _ _))
      · rw [if_neg last]
        have later : (entries.filter fun other => decide (entry.1 + 1 ≤ other.1)) = rest := by
          have narrower : (entries.filter fun other => decide (entry.1 + 1 ≤ other.1)) =
              (entry :: rest).filter fun other => decide (entry.1 < other.1) := by
            rw [← rest_eq, List.filter_filter]
            refine List.filter_congr fun other _ => ?_
            rw [Bool.eq_iff_iff, Bool.and_eq_true, decide_eq_true_iff, decide_eq_true_iff,
              decide_eq_true_iff, Int64.add_one_le_iff last]
            exact ⟨fun above => ⟨above, (of_decide_eq_true behind).trans above.le⟩, fun both => both.1⟩
          rw [narrower, List.filter_cons_of_neg (by simp), List.filter_eq_self]
          exact fun other inRest => decide_eq_true ((List.pairwise_cons.mp ordered).1 other inRest)
        exact ih (entry.1 + 1) later

end

end TableScan

namespace FilterExec

variable {input : Executor σ} {predicate : Compute} {holds : Row → Bool}

theorem yields {state : input.State} {rows : List Row}
    (pulled : Pull.Yields keeps input.next state rows)
    (evaluates : ∀ row ∈ rows, ∃ v, predicate row = .ok v ∧ v.isTruthy = holds row) :
    Pull.Yields keeps (next input predicate) state (rows.filter holds) := by
  induction pulled with
  | done last => exact .done (.of_succ (.bind last (.pure _ _)))
  | @item state after row rows first rest ih =>
      have later := ih fun row inRows => evaluates row (List.mem_cons_of_mem _ inRows)
      obtain ⟨v, evaluated, truth⟩ := evaluates row List.mem_cons_self
      by_cases kept : holds row = true
      · rw [List.filter_cons_of_pos kept]
        refine .item (.of_succ (.bind first (.of_eq (fun fuel store => ?_) (.pure _ _)))) later
        simp only [evaluated, Exec.lift_ok_bind, truth, kept, if_true]
      · rw [List.filter_cons_of_neg kept]
        refine later.silent fun value final gives => .of_succ (.bind first (.of_eq (fun fuel store => ?_) gives))
        simp only [evaluated, Exec.lift_ok_bind, truth, kept, Bool.false_eq_true, if_false]

end FilterExec

namespace ProjectExec

variable {input : Executor σ} {exprs : List Compute} {values : Row → List Value}

theorem yields {state : input.State} {rows : List Row}
    (pulled : Pull.Yields keeps input.next state rows)
    (evaluates : ∀ row ∈ rows, exprs.mapM (fun e => e row) = .ok (values row)) :
    Pull.Yields keeps (next input exprs) state (rows.map fun row => ⟨row.rowId, values row⟩) := by
  induction pulled with
  | done last => exact .done (.bind last (.pure _ _))
  | @item state after row rows first rest ih =>
      have later := ih fun row inRows => evaluates row (List.mem_cons_of_mem _ inRows)
      refine .item (.bind first (.of_eq (fun fuel store => ?_) (.pure _ _))) later
      simp only [evaluates row List.mem_cons_self, Exec.lift_ok_bind]

end ProjectExec

namespace LimitExec

variable {input : Executor σ} {limit : Option UInt64} {offset : UInt64}

/-- At most as many rows as the limit leaves. -/
def takeUpTo (limit : Option UInt64) (emitted : Nat) (rows : List Row) : List Row :=
  match limit with
  | some l => rows.take (l.toNat - emitted)
  | none => rows

theorem takeUpTo_nil (emitted : Nat) : takeUpTo limit emitted [] = [] := by
  cases limit with
  | none => rfl
  | some l => exact List.take_nil

theorem takeUpTo_of_reached {emitted : Nat} (reached : limit.any (fun l => l.toNat ≤ emitted) = true)
    (rows : List Row) : takeUpTo limit emitted rows = [] := by
  cases limit with
  | none => cases reached
  | some l =>
      have : l.toNat - emitted = 0 := Nat.sub_eq_zero_of_le (by simpa using reached)
      rw [takeUpTo, this, List.take_zero]

theorem takeUpTo_cons {emitted : Nat} (open_ : ¬ limit.any (fun l => l.toNat ≤ emitted) = true)
    (row : Row) (rows : List Row) :
    takeUpTo limit emitted (row :: rows) = row :: takeUpTo limit (emitted + 1) rows := by
  cases limit with
  | none => rfl
  | some l =>
      have below : emitted < l.toNat := by simpa using open_
      have : l.toNat - emitted = l.toNat - (emitted + 1) + 1 := by omega
      rw [takeUpTo, this, List.take_succ_cons, takeUpTo]

theorem pulls {inner after : input.State} {found : Option Row} {skipped emitted : Nat}
    (gives : Gives keeps input.next inner found after) :
    Gives keeps (pullInput input) ⟨inner, skipped, emitted⟩ found ⟨after, skipped, emitted⟩ :=
  @Gives.onInner _ _ _ _ _ _ ⟨inner, skipped, emitted⟩ _ State.input
    (fun inner self => { self with input := inner }) _ _ gives

/-- A call that still has rows to skip. -/
theorem next_skipping {inner : input.State} {skipped emitted : Nat} (skips : skipped < offset.toNat)
    (fuel : Nat) (store : σ) :
    next input limit offset (fuel + 1) (store, ⟨inner, skipped, emitted⟩) =
      (pullInput input fuel >>= fun
        | none => return none
        | some _ => do
            modifyOwn fun self => { self with skipped := self.skipped + 1 }
            next input limit offset fuel) (store, ⟨inner, skipped, emitted⟩) := by
  rw [next, Exec.own_bind]
  simp only [skips, if_true] <;> rfl

/-- A call that has skipped its rows and has not reached the limit. -/
theorem next_open {inner : input.State} {skipped emitted : Nat} (skips : ¬ skipped < offset.toNat)
    (open_ : ¬ limit.any (fun l => l.toNat ≤ emitted) = true) (fuel : Nat) (store : σ) :
    next input limit offset (fuel + 1) (store, ⟨inner, skipped, emitted⟩) =
      (pullInput input fuel >>= fun
        | some row => do
            modifyOwn fun self => { self with emitted := self.emitted + 1 }
            return some row
        | none => return none) (store, ⟨inner, skipped, emitted⟩) := by
  rw [next, Exec.own_bind]
  simp only [skips, open_, Bool.false_eq_true, if_false] <;> rfl

theorem next_reached {inner : input.State} {skipped emitted : Nat} (skips : ¬ skipped < offset.toNat)
    (reached : limit.any (fun l => l.toNat ≤ emitted) = true) :
    Gives keeps (next input limit offset) ⟨inner, skipped, emitted⟩ none
      ⟨inner, skipped, emitted⟩ := by
  refine .of_succ (.of_eq (fun fuel store => ?_) (.pure _ _))
  rw [next, Exec.own_bind]
  simp only [skips, reached, if_true, if_false]

theorem yields {inner : input.State} {rows : List Row}
    (pulled : Pull.Yields keeps input.next inner rows) (skipped emitted : Nat) :
    Pull.Yields keeps (next input limit offset) ⟨inner, skipped, emitted⟩
      (takeUpTo limit emitted (rows.drop (offset.toNat - skipped))) := by
  induction pulled generalizing skipped emitted with
  | @done inner after last =>
      rw [List.drop_nil, takeUpTo_nil]
      by_cases skips : skipped < offset.toNat
      · exact .done (.of_succ (.of_eq (next_skipping skips) (.bind (pulls last) (.pure _ _))))
      · by_cases reached : limit.any (fun l => l.toNat ≤ emitted) = true
        · exact .done (next_reached skips reached)
        · exact .done (.of_succ (.of_eq (next_open skips reached) (.bind (pulls last) (.pure _ _))))
  | @item inner after row rows first rest ih =>
      by_cases skips : skipped < offset.toNat
      · have fewer : offset.toNat - skipped = offset.toNat - (skipped + 1) + 1 := by omega
        rw [fewer, List.drop_succ_cons]
        refine (ih (skipped + 1) emitted).silent fun value final gives => ?_
        exact .of_succ (.of_eq (next_skipping skips) (.bind (pulls first) (.modifyOwn gives)))
      · have all : offset.toNat - skipped = 0 := by omega
        have later := ih skipped (emitted + 1)
        rw [all, List.drop_zero] at later ⊢
        by_cases reached : limit.any (fun l => l.toNat ≤ emitted) = true
        · rw [takeUpTo_of_reached reached]
          exact .done (next_reached skips reached)
        · rw [takeUpTo_cons reached]
          refine .item (.of_succ (.of_eq (next_open skips reached) (.bind (pulls first) ?_))) later
          exact .modifyOwn (.pure _ _)

end LimitExec

section Produced

variable {τ : Type} {get : τ → Option (List Row)} {set : Option (List Row) → τ → τ}
  {compute : Nat → Exec (σ × τ) SqlError (List Row)}

/-- Give the first of these rows, and keep the others. -/
theorem gives_head (set : Option (List Row) → τ → τ) (rows : List Row) (state : τ) :
    Gives keeps (fun _ => (do
      modifyOwn (set (some rows.tail))
      return rows.head? : Exec (σ × τ) SqlError (Option Row))) state rows.head?
      (set (some rows.tail) state) :=
  fun store kept => ⟨store, kept, 0, fun _ _ => rfl⟩

/-- Rows that are there are given one by one. -/
theorem yields_produced (get_set : ∀ rows state, get (set rows state) = rows) {state : τ}
    {rows : List Row} (there : get state = some rows) :
    Pull.Yields keeps (fun fuel => nextProduced get set (compute fuel)) state rows := by
  have step : Gives keeps (fun fuel => nextProduced get set (compute fuel)) state rows.head?
      (set (some rows.tail) state) := by
    refine .of_eq (fun fuel store => ?_) (gives_head set rows state)
    simp only [nextProduced, Exec.own_bind, there]
    rfl
  induction rows generalizing state with
  | nil => exact .done step
  | cons row rows ih =>
      have rest : get (set (some rows) state) = some rows := get_set _ _
      refine .item step (ih rest (.of_eq (fun fuel store => ?_) (gives_head set rows _)))
      simp only [List.tail_cons, nextProduced, Exec.own_bind, rest]
      rfl

/-- Rows that are computed at the first call. -/
theorem yields_computed (get_set : ∀ rows state, get (set rows state) = rows) {state between : τ}
    {rows : List Row} (first : get state = none) (computed : Gives keeps compute state rows between) :
    Pull.Yields keeps (fun fuel => nextProduced get set (compute fuel)) state rows := by
  have step : Gives keeps (fun fuel => nextProduced get set (compute fuel)) state rows.head?
      (set (some rows.tail) between) := by
    have split : ∀ fuel store, nextProduced get set (compute fuel) (store, state) =
        (compute fuel >>= fun rows => do
          modifyOwn (set (some rows.tail))
          return rows.head?) (store, state) := by
      intro fuel store
      simp only [nextProduced, Exec.own_bind, first]
    exact .of_eq split (.bind computed (gives_head set rows between))
  cases rows with
  | nil => exact .done step
  | cons row rows => exact .item step (yields_produced get_set (get_set _ _))

end Produced

/-- An input that was taken out of the state gives its rows. -/
theorem gives_drain {τ : Type} {input : Executor σ} {taken : input.State} {rows : List Row}
    (pulled : Pull.Yields keeps input.next taken rows) (state : τ) :
    Gives keeps (drain input taken) state rows state := by
  obtain ⟨after, collected⟩ := pulled.collect
  exact @Gives.onInner _ _ _ _ _ _ state _ (fun _ => taken) (fun _ self => self) _ _ collected

namespace SortExec

variable {input : Executor σ} {keys : List (SortKey Compute)} {values : Row → List Value}

theorem sorted_ok {rows : List Row}
    (evaluates : ∀ row ∈ rows, keys.mapM (fun k => k.expr row) = .ok (values row)) :
    sorted keys rows =
      .ok (sortBy (fun a b => compareKeys (keys.map SortKey.asc) (values a) (values b)) rows) := by
  have keyed : (rows.mapM fun row => do return (← keys.mapM fun k => k.expr row, row) :
      Outcome SqlError (List (List Value × Row))) = .ok (rows.map fun row => (values row, row)) := by
    refine Outcome.mapM_eq_ok fun row member => ?_
    rw [evaluates row member]
    rfl
  have back : (sortBy (fun a b => compareKeys (keys.map SortKey.asc) (values a) (values b)) rows).map
      (fun row => (values row, row)) =
      sortBy (fun a b => compareKeys (keys.map SortKey.asc) a.1 b.1)
        (rows.map fun row => (values row, row)) := map_sortBy fun _ _ _ _ => rfl
  rw [sorted, keyed, Outcome.ok_bind, ← back, List.map_map]
  exact congrArg Except.ok (List.map_id _)

theorem yields {inner : input.State} {rows : List Row}
    (pulled : Pull.Yields keeps input.next inner rows)
    (evaluates : ∀ row ∈ rows, keys.mapM (fun k => k.expr row) = .ok (values row)) :
    Pull.Yields keeps (next input keys) ⟨some inner, none⟩
      (sortBy (fun a b => compareKeys (keys.map SortKey.asc) (values a) (values b)) rows) := by
  have start : ∀ fuel store, sortRows input keys fuel (store, ⟨some inner, none⟩) =
      (drain input inner fuel >>= fun rows => Exec.lift (sorted keys rows))
        (store, (⟨none, none⟩ : State input)) := fun _ _ => rfl
  exact yields_computed (fun _ _ => rfl) rfl
    (.of_eq start (.bind (gives_drain pulled _) (.lift (sorted_ok evaluates) _)))

end SortExec

namespace NestedLoopJoin

variable {left right : Executor σ} {predicate : Option Compute} {leftOuter : Bool}

/-- The state when the right input has been read. -/
abbrev ready (l : left.State) (rightRows : List Row) (curLeft : Option Row) (rightIdx : Nat)
    (matched : Bool) : State left right :=
  ⟨l, none, rightRows, true, curLeft, rightIdx, matched⟩

def combine (leftRow rightRow : Row) : Row := ⟨leftRow.rowId, leftRow.values ++ rightRow.values⟩

def padded (width : Nat) (leftRow : Row) : Row :=
  ⟨leftRow.rowId, leftRow.values ++ List.replicate width .null⟩

/-- The row for a left row without a match. -/
def outerRow (leftOuter matched : Bool) (width : Nat) (leftRow : Row) : List Row :=
  if leftOuter && !matched then [padded width leftRow] else []

theorem next_ready {l : left.State} {rightRows : List Row} {curLeft : Option Row} {rightIdx : Nat}
    {matched : Bool} (fuel : Nat) (store : σ) :
    next left right predicate leftOuter fuel (store, ready l rightRows curLeft rightIdx matched) =
      loop left right predicate leftOuter fuel
        (store, ready l rightRows curLeft rightIdx matched) := rfl

variable {l : left.State} {rightRows : List Row} {holds : Row → Bool}

/-- A round of the loop that comes to another state is silent. -/
theorem silent_round {curLeft curLeft' : Option Row} {rightIdx rightIdx' : Nat}
    {matched matched' : Bool} {l' : left.State} {out : List Row}
    (round : ∀ fuel store, loop left right predicate leftOuter (fuel + 1)
        (store, ready l rightRows curLeft rightIdx matched) =
      loop left right predicate leftOuter fuel
        (store, ready l' rightRows curLeft' rightIdx' matched'))
    (later : Pull.Yields keeps (next left right predicate leftOuter)
      (ready l' rightRows curLeft' rightIdx' matched') out) :
    Pull.Yields keeps (next left right predicate leftOuter)
      (ready l rightRows curLeft rightIdx matched) out :=
  later.silent fun _ _ gives => .of_eq next_ready <| .of_succ <| .of_eq round <|
    .of_eq (fun fuel store => (next_ready fuel store).symm) gives

/-- The right rows from some index on, the rows of the left row they give, and what
comes after them. -/
theorem yields_right {leftRow : Row} {rights out : List Row} (rightIdx : Nat) (matched : Bool)
    (rest : rightRows.drop rightIdx = rights)
    (evaluates : ∀ rightRow ∈ rights,
      NestedLoopJoin.keeps predicate (combine leftRow rightRow) =
        .ok (holds (combine leftRow rightRow)))
    (later : ∀ rightIdx matched, Pull.Yields keeps (next left right predicate leftOuter)
      (ready l rightRows none rightIdx matched) out) :
    Pull.Yields keeps (next left right predicate leftOuter)
      (ready l rightRows (some leftRow) rightIdx matched)
      ((rights.map (combine leftRow)).filter holds ++
        outerRow leftOuter (matched || (rights.map (combine leftRow)).any holds)
          right.columns.length leftRow ++ out) := by
  induction rights generalizing rightIdx matched with
  | nil =>
      have none : rightRows[rightIdx]? = none := by
        rw [List.getElem?_eq_none_iff, ← List.drop_eq_nil_iff]
        exact rest
      simp only [List.map_nil, List.filter_nil, List.any_nil, Bool.or_false, List.nil_append, outerRow]
      by_cases outer : (leftOuter && !matched) = true
      · rw [if_pos outer, List.singleton_append]
        refine .item (.of_eq next_ready (.of_succ (.of_eq (fun fuel store => ?_) (.pure _ _))))
          (later rightIdx matched)
        simp only [loop, Exec.own_bind, none, Exec.modifyOwn_bind, outer, if_true]
        rfl
      · rw [if_neg outer, List.nil_append]
        refine silent_round (fun fuel store => ?_) (later rightIdx matched)
        simp only [loop, Exec.own_bind, none, Exec.modifyOwn_bind, outer, Bool.false_eq_true, if_false]
  | cons rightRow rights ih =>
      have here : rightRows[rightIdx]? = some rightRow := by
        have first := congrArg (fun rows : List Row => rows[0]?) rest
        simpa only [List.getElem?_drop, Nat.add_zero, List.getElem?_cons_zero] using first
      have behind : rightRows.drop (rightIdx + 1) = rights := by
        rw [← List.tail_drop, rest, List.tail_cons]
      have evaluated := evaluates rightRow List.mem_cons_self
      have following := fun matched => ih (rightIdx + 1) matched behind
        fun other inRights => evaluates other (List.mem_cons_of_mem _ inRights)
      rw [List.map_cons, List.any_cons]
      by_cases kept : holds (combine leftRow rightRow) = true
      · rw [List.filter_cons_of_pos kept, kept, Bool.true_or, Bool.or_true]
        have after := following true
        rw [Bool.true_or] at after
        refine .item (.of_eq next_ready (.of_succ (.of_eq (fun fuel store => ?_) (.pure _ _)))) after
        rw [kept, combine] at evaluated
        simp only [loop, Exec.own_bind, here, Exec.modifyOwn_bind, evaluated, Exec.lift_ok_bind,
          if_true]
        rfl
      · rw [List.filter_cons_of_neg kept, Bool.eq_false_of_not_eq_true kept, Bool.false_or]
        refine silent_round (fun fuel store => ?_) (following matched)
        rw [combine] at kept evaluated
        simp only [loop, Exec.own_bind, here, Exec.modifyOwn_bind, evaluated, Exec.lift_ok_bind, kept,
          Bool.false_eq_true, if_false]

/-- The rows of a left row. -/
def joined (leftOuter : Bool) (holds : Row → Bool) (width : Nat) (rightRows : List Row)
    (leftRow : Row) : List Row :=
  (rightRows.map (combine leftRow)).filter holds ++
    outerRow leftOuter ((rightRows.map (combine leftRow)).any holds) width leftRow

/-- The left rows, when the right ones have been read. -/
theorem yields_left {rows : List Row} (pulled : Pull.Yields keeps left.next l rows)
    (evaluates : ∀ leftRow ∈ rows, ∀ rightRow ∈ rightRows,
      NestedLoopJoin.keeps predicate (combine leftRow rightRow) =
        .ok (holds (combine leftRow rightRow)))
    (rightIdx : Nat) (matched : Bool) :
    Pull.Yields keeps (next left right predicate leftOuter)
      (ready l rightRows none rightIdx matched)
      (rows.flatMap (joined leftOuter holds right.columns.length rightRows)) := by
  have pull {l after : left.State} {found : Option Row} (gives : Gives keeps left.next l found after)
      (rightIdx : Nat) (matched : Bool) :
      Gives keeps (fun fuel => onInner State.left (fun inner self => { self with left := inner })
          (left.next fuel)) (ready l rightRows none rightIdx matched : State left right) found
        (ready after rightRows none rightIdx matched) :=
    @Gives.onInner _ _ _ _ _ _ (ready l rightRows none rightIdx matched : State left right) _
      State.left (fun inner self => { self with left := inner }) _ _ gives
  have round {l : left.State} (rightIdx : Nat) (matched : Bool) (fuel : Nat) (store : σ) :
      loop left right predicate leftOuter (fuel + 1)
          (store, ready l rightRows none rightIdx matched) =
        (onInner State.left (fun inner self => { self with left := inner }) (left.next fuel) >>= fun
          | some row => do
              modifyOwn fun self =>
                { self with curLeft := some row, rightIdx := 0, matched := false }
              loop left right predicate leftOuter fuel
          | none => return none) (store, ready l rightRows none rightIdx matched) := by
    simp only [loop, Exec.own_bind] <;> rfl
  induction pulled generalizing rightIdx matched with
  | done last =>
      exact .done <| .of_eq next_ready <| .of_succ <| .of_eq (round rightIdx matched) <|
        .bind (pull last rightIdx matched) (.pure _ _)
  | @item l after leftRow rows first rest ih =>
      have later := ih fun row inRows => evaluates row (List.mem_cons_of_mem _ inRows)
      have own := yields_right 0 false (List.drop_zero) (evaluates leftRow List.mem_cons_self) later
      rw [Bool.false_or] at own
      rw [List.flatMap_cons, joined]
      refine own.silent fun _ _ gives => ?_
      exact .of_eq next_ready <| .of_succ <| .of_eq (round rightIdx matched) <|
        .bind (pull first rightIdx matched) <| .modifyOwn <|
          .of_eq (fun fuel store => (next_ready fuel store).symm) gives

/-- **The join.** -/
theorem yields {start : right.State} {rows : List Row}
    (pulledLeft : Pull.Yields keeps left.next l rows)
    (pulledRight : Pull.Yields keeps right.next start rightRows)
    (evaluates : ∀ leftRow ∈ rows, ∀ rightRow ∈ rightRows,
      NestedLoopJoin.keeps predicate (combine leftRow rightRow) =
        .ok (holds (combine leftRow rightRow))) :
    Pull.Yields keeps (next left right predicate leftOuter)
      ⟨l, some start, [], false, none, 0, false⟩
      (rows.flatMap (joined leftOuter holds right.columns.length rightRows)) := by
  -- The first call reads the right input, then goes on as a later one does.
  have first : ∀ fuel store, next left right predicate leftOuter fuel
      (store, ⟨l, some start, [], false, none, 0, false⟩) =
      (drain right start fuel >>= fun rows => do
        modifyOwn fun self => { self with rightRows := rows }
        modifyOwn fun self => { self with rightReady := true }
        loop left right predicate leftOuter fuel)
        (store, (⟨l, none, [], false, none, 0, false⟩ : State left right)) := by
    intro fuel store
    simp only [next, ensureRight, bind_assoc, Exec.own_bind, Bool.false_eq_true, if_false,
      Exec.modifyOwn_bind]
  refine (yields_left pulledLeft evaluates 0 false).silent fun _ _ gives => ?_
  exact .of_eq first <| .bind (gives_drain pulledRight _) <| .modifyOwn <| .modifyOwn <|
    .of_eq (fun fuel store => (next_ready fuel store).symm) gives

end NestedLoopJoin

end Squrust.Sql
