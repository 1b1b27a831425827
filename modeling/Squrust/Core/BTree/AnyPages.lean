import Squrust.Core.BTree.CellBounds
import Squrust.Core.BTree.FixedBudget
import Squrust.Foundation.Cycles

/-!
# Reading pages of any content

The pages of a damaged file can hold anything, and their links can lead
anywhere. Over pages that stay what they are, a loop of the tree that follows
links ends exactly when no page it comes to leads back to itself: the loop of a
lookup (`get_finishes_iff`), of a seek, of a chain that is read
(`readValue_finishes_iff`) or freed (`freeOverflowChain_finishes_iff`).
-/

set_option autoImplicit false

namespace Squrust.Core

open Squrust.Foundation

open Exec (Answered Finishes SteadyAt)

open Relation (ReflTransGen)

/-- A source of pages that stay what they are. A page is there, or reading it fails. -/
class StaticSource (σ : Type) [PageSource σ] where
  contents : σ → PageId → Option PageData
  getPage_some : ∀ {store : σ} {id : PageId} {data : PageData}, contents store id = some data →
    ∃ after, PageSource.getPage id store = .ok ⟨id, data⟩ after ∧ contents after = contents store
  getPage_none : ∀ {store : σ} {id : PageId}, contents store id = none →
    ∃ e after, PageSource.getPage id store = .error (.error e) after

/-- A sink that keeps what stands in a page that is freed. -/
class StaticSink (σ : Type) [PageSink σ] extends StaticSource σ where
  freePage_static : ∀ (store : σ) (id : PageId),
    ∃ after, PageSink.freePage id store = .ok () after ∧ contents after = contents store

export StaticSource (contents)

namespace Audited

variable {σ : Type}

instance [PageSource σ] [StaticSource σ] : StaticSource (Audited σ) where
  contents audited := contents audited.sink
  getPage_some := by
    intro audited id data there
    obtain ⟨sink, run, same⟩ := StaticSource.getPage_some there
    exact ⟨⟨sink, audited.allFit⟩, onSink_eq_ok.mpr ⟨run, rfl⟩, same⟩
  getPage_none := by
    intro audited id missing
    obtain ⟨e, sink, failed⟩ := StaticSource.getPage_none missing
    refine ⟨e, ⟨sink, audited.allFit⟩, ?_⟩
    change onSink (PageSource.getPage id) audited = _
    simp only [onSink, Exec.onPart, failed]

instance [PageSink σ] [StaticSink σ] : StaticSink (Audited σ) where
  freePage_static := by
    intro audited id
    obtain ⟨sink, run, same⟩ := StaticSink.freePage_static audited.sink id
    exact ⟨⟨sink, audited.allFit⟩, onSink_eq_ok.mpr ⟨run, rfl⟩, same⟩

end Audited

/-! ## Pages and their links -/

instance finitePageId : Finite PageId :=
  Finite.of_injective UInt32.toFin fun _ _ same => UInt32.toFin_inj.mp same

/-- What the pages of a file hold. -/
abbrev PageContents := PageId → Option PageData

namespace PageContents

variable (pages : PageContents)

/-- The node of a page, if it is one. -/
def nodeAt (id : PageId) : Option Node :=
  (pages id).bind fun data => (Node.parse ⟨id, data⟩).toOption

/-- Reading any page as a node gives a node or an error. -/
def Parses : Prop :=
  ∀ id data, pages id = some data → (Node.parse ⟨id, data⟩).Settles fun _ => True

/-- The overflow page behind an overflow page, or 0 at the end of a chain. -/
def nextOverflow (data : PageData) : PageId := UInt32.ofNat (field data.val 0 4)

/-- One overflow page follows another. -/
def Chained (id next : PageId) : Prop := id ≠ 0 ∧ ∃ data, pages id = some data ∧ next = nextOverflow data

/-- A child is the one to descend to for the rowid. -/
def Descends (rowid : Int64) (id child : PageId) : Prop :=
  ∃ n, pages.nodeAt id = some (.interior n) ∧ child = n.childFor rowid

/-- A chain of overflow pages comes to no page again. -/
def ChainEnds (first : PageId) : Prop := NoLoop pages.Chained first

/-- A cell's record is inline, or is no longer than any vector and in a chain that ends. -/
def ValueEnds (cell : LeafCell) : Prop :=
  cell.overflow = 0 ∨ cell.payloadLen.toNat < 2 ^ 63 ∧ pages.ChainEnds cell.overflow

/-- A leaf finds the rowid in the cell. -/
def Finds (rowid : Int64) (id : PageId) (cell : LeafCell) : Prop :=
  ∃ l i, pages.nodeAt id = some (.leaf l) ∧ l.search rowid = .ok i ∧ l.cells[i]? = some cell

/-- A cell of a leaf among the pages. -/
def HasCell (cell : LeafCell) : Prop := ∃ id l, pages.nodeAt id = some (.leaf l) ∧ cell ∈ l.cells

end PageContents

/-! ## Cells as they are read -/

theorem Node.parseLeafCell_inlined {buf : PageData} {pos : Nat} {cell : LeafCell}
    (parsed : Node.parseLeafCell buf pos = .ok cell) :
    cell.inlined.length ≤ cell.payloadLen.toNat := by
  rw [Node.parseLeafCell_eq] at parsed
  obtain ⟨⟨payloadLen, n⟩, -, parsed⟩ := Outcome.bind_eq_ok.mp parsed
  obtain ⟨⟨rowidRaw, m⟩, -, parsed⟩ := Outcome.bind_eq_ok.mp parsed
  have sliced : ∀ {offset count : Nat} {inlined : Bytes}, buf.slice offset count = .ok inlined →
      inlined.length = count := by
    intro offset count inlined read
    rw [PageData.slice, Outcome.orPanic_eq_ok] at read
    exact length_of_pread read
  dsimp only [Node.leafCellBody] at parsed
  split at parsed
  · obtain ⟨inlined, read, same⟩ := Outcome.bind_eq_ok.mp parsed
    obtain rfl := Outcome.pure_eq_ok.mp same
    exact (sliced read).le
  · next long =>
    obtain ⟨inlined, read, parsed⟩ := Outcome.bind_eq_ok.mp parsed
    obtain ⟨overflow, -, same⟩ := Outcome.bind_eq_ok.mp parsed
    obtain rfl := Outcome.pure_eq_ok.mp same
    rw [sliced read]
    exact (inlineLenFor_lt (Nat.not_le.mp long)).le

theorem Node.parseLeafCells_inlined {buf : PageData} {numCells ptr : Nat} {cells : List LeafCell}
    (parsed : Node.parseLeafCells buf numCells ptr = .ok cells) :
    ∀ cell ∈ cells, cell.inlined.length ≤ cell.payloadLen.toNat := by
  induction numCells generalizing ptr cells with
  | zero =>
      obtain rfl := Except.ok.inj parsed
      exact List.forall_mem_nil _
  | succ numCells ih =>
      obtain ⟨cellOff, -, parsed⟩ := Outcome.bind_eq_ok.mp parsed
      obtain ⟨first, one, parsed⟩ := Outcome.bind_eq_ok.mp parsed
      obtain ⟨rest, others, same⟩ := Outcome.bind_eq_ok.mp parsed
      obtain rfl := Outcome.pure_eq_ok.mp same
      exact List.forall_mem_cons.mpr ⟨Node.parseLeafCell_inlined one, ih others⟩

/-- What a cell of a leaf holds inline is a part of its record. -/
theorem PageContents.HasCell.inlined {pages : PageContents} {cell : LeafCell}
    (has : pages.HasCell cell) : cell.inlined.length ≤ cell.payloadLen.toNat := by
  obtain ⟨id, l, isLeaf, among⟩ := has
  obtain ⟨data, -, parsed⟩ := Option.bind_eq_some_iff.mp isLeaf
  cases parse : Node.parse ⟨id, data⟩ with
  | error fault =>
      rw [parse] at parsed
      cases parsed
  | ok node =>
      rw [parse] at parsed
      obtain rfl := Option.some.inj parsed
      obtain ⟨ty, -, parse⟩ := Outcome.bind_eq_ok.mp parse
      obtain ⟨numCells, -, parse⟩ := Outcome.bind_eq_ok.mp parse
      split at parse
      · obtain ⟨cells, read, same⟩ := Outcome.bind_eq_ok.mp parse
        cases Outcome.pure_eq_ok.mp same
        exact Node.parseLeafCells_inlined read cell among
      · split at parse
        · obtain ⟨rightChild, -, parse⟩ := Outcome.bind_eq_ok.mp parse
          obtain ⟨cells, -, same⟩ := Outcome.bind_eq_ok.mp parse
          cases Outcome.pure_eq_ok.mp same
        · cases parse

/-! ## Reading one page -/

namespace BTree

section

variable {σ : Type} [PageSource σ] [StaticSource σ] {store : σ} {id : PageId}

theorem getNode_some {node : Node} (isNode : PageContents.nodeAt (contents store) id = some node) :
    ∃ after, (getNode id : Exec σ StorageError Node) store = .ok node after ∧
      contents after = contents store := by
  obtain ⟨data, there, parsed⟩ := Option.bind_eq_some_iff.mp isNode
  obtain ⟨after, run, same⟩ := StaticSource.getPage_some there
  refine ⟨after, ?_, same⟩
  rw [getNode, Exec.bind_of_ok run, Exec.lift_eq_ok]
  cases parse : Node.parse ⟨id, data⟩ with
  | error fault =>
      rw [parse] at parsed
      cases parsed
  | ok read =>
      rw [parse] at parsed
      exact ⟨congrArg Except.ok (Option.some.inj parsed), rfl⟩

theorem getNode_none (parses : PageContents.Parses (contents store))
    (missing : PageContents.nodeAt (contents store) id = none) :
    ∃ e after, (getNode id : Exec σ StorageError Node) store = .error (.error e) after := by
  cases there : contents store id with
  | none =>
      obtain ⟨e, after, failed⟩ := StaticSource.getPage_none there
      exact ⟨e, after, by rw [getNode, Exec.bind_of_error failed]⟩
  | some data =>
      obtain ⟨after, run, -⟩ := StaticSource.getPage_some there
      rcases parses id data there with ⟨node, parse⟩ | ⟨e, -, parse⟩
      · rw [PageContents.nodeAt, there, Option.bind_some, parse] at missing
        cases missing
      · refine ⟨e, after, ?_⟩
        rw [getNode, Exec.bind_of_ok run, parse]
        rfl

/-! ## Chains -/

theorem readU32_front (data : PageData) :
    Node.readU32 data 0 = .ok (PageContents.nextOverflow data) := by
  rw [Node.readU32, Node.slice_of_le (by decide)]
  rfl

/-- Reading a chain ends when the chain does, whatever its pages hold. -/
theorem readValueLoop_answers_iff {cell : LeafCell} {first : PageId} {out : Bytes}
    (part : out.length ≤ cell.payloadLen.toNat) :
    (∃ fuel, Answered ((readValueLoop cell fuel first out : Exec σ StorageError Bytes) store)) ↔
      PageContents.ChainEnds (contents store) first := by
  rw [PageContents.ChainEnds, ← ends_iff_no_loop]
  have loop := @exists_run_iff PageId (PageContents.Chained (contents store)) (PageId × Bytes × σ)
    (fun fuel work => Answered (readValueLoop cell fuel work.1 work.2.1 work.2.2))
    (fun work => work.2.1.length ≤ cell.payloadLen.toNat ∧ contents work.2.2 = contents store)
    Prod.fst (fun _ => True) (fun _ => Exec.not_answered_outOfFuel _) ?_ (first, out, store) ⟨part, rfl⟩
  · simpa using loop
  rintro ⟨next, out, reached⟩ ⟨part, same⟩
  by_cases more : next ≠ 0
  · cases there : contents store next with
    | none =>
        refine Or.inl ⟨?_, iff_of_true ⟨0, ?_⟩ trivial⟩
        · rintro later ⟨-, data, found, -⟩
          rw [there] at found
          cases found
        · obtain ⟨e, after, failed⟩ := StaticSource.getPage_none (by rw [same]; exact there)
          rw [readValueLoop, if_pos more, Exec.bind_of_error failed]
          exact Exec.answered_error e after
    | some data =>
        have held : contents reached next = some data := by rw [same]; exact there
        obtain ⟨after, run, keeps⟩ := StaticSource.getPage_some held
        have sliced := @Node.slice_of_le data 4 (min (cell.payloadLen.toNat - out.length) overflowCap)
          (by simp only [overflowCap, usable, pageSize]; omega)
        have size := List.length_take_le (min (cell.payloadLen.toNat - out.length) overflowCap)
          (data.val.drop 4)
        generalize (data.val.drop 4).take (min (cell.payloadLen.toNat - out.length) overflowCap) = chunk
          at sliced size
        refine Or.inr ⟨(PageContents.nextOverflow data, out ++ chunk, after), ⟨?_, keeps.trans same⟩, ?_,
          trivial, fun fuel => ?_⟩
        · dsimp only at part ⊢
          rw [List.length_append]
          omega
        · intro later
          constructor
          · rintro ⟨-, data', found, rfl⟩
            rw [there] at found
            rw [Option.some.inj found]
          · rintro rfl
            exact ⟨more, data, there, rfl⟩
        · have rest : (readValueLoop cell (fuel + 1) next out : Exec σ StorageError Bytes) reached =
              readValueLoop cell fuel (PageContents.nextOverflow data) (out ++ chunk) after := by
            rw [readValueLoop, if_pos more, Exec.bind_of_ok run, readU32_front]
            refine (Exec.bind_of_ok rfl).trans ?_
            rw [if_pos part]
            refine (Exec.bind_of_ok rfl).trans ?_
            dsimp only
            rw [sliced]
            exact Exec.bind_of_ok rfl
          rw [rest]
  · refine Or.inl ⟨fun later link => more link.1, iff_of_true ⟨0, ?_⟩ trivial⟩
    rw [readValueLoop, if_neg more]
    exact Exec.answered_ok out reached

theorem readValue_answers_iff {cell : LeafCell} (has : PageContents.HasCell (contents store) cell) :
    (∃ fuel, Answered ((readValue fuel cell : Exec σ StorageError Bytes) store)) ↔
      PageContents.ValueEnds (contents store) cell := by
  unfold PageContents.ValueEnds
  by_cases inlined : cell.overflow = 0
  · refine iff_of_true ⟨0, ?_⟩ (Or.inl inlined)
    rw [readValue, if_pos inlined]
    exact Exec.answered_ok _ _
  · rw [or_iff_right inlined, ← readValueLoop_answers_iff has.inlined]
    by_cases fits : cell.payloadLen.toNat < 2 ^ 63
    · rw [and_iff_right fits]
      refine exists_congr fun fuel => ?_
      rw [readValue, if_neg inlined, withCapacity, if_pos fits]
      refine (Exec.answered_bind_iff).trans ⟨fun both => ?_, fun answered => ?_⟩
      · exact (Exec.answered_bind_iff.mp (both.2 () store rfl)).1
      · refine ⟨Exec.answered_ok _ _, fun value after reserved => ?_⟩
        obtain ⟨-, rfl⟩ := EStateM.Result.ok.inj reserved
        refine Exec.answered_bind_iff.mpr ⟨answered, fun out reached _ => ?_⟩
        by_cases whole : out.length ≠ cell.payloadLen.toNat
        · rw [if_pos whole]
          exact Exec.answered_error _ _
        · rw [if_neg whole]
          exact Exec.answered_ok _ _
    · refine iff_of_false ?_ fun both => fits both.1
      rintro ⟨fuel, answered⟩
      rw [readValue, if_neg inlined, withCapacity, if_neg fits] at answered
      exact Exec.not_answered_panic _ _ (Exec.answered_bind_iff.mp answered).1

/-- **Chains that are read.** -/
theorem readValue_finishes_iff {cell : LeafCell} (has : PageContents.HasCell (contents store) cell) :
    Finishes (fun fuel => (readValue fuel cell : Exec σ StorageError Bytes)) store ↔
      PageContents.ValueEnds (contents store) cell := by
  rw [Exec.finishes_iff_exists (steady_readValue cell), readValue_answers_iff has]

/-! ## Descents -/

theorem exists_cell_of_search {l : LeafNode} {rowid : Int64} {i : Nat} (found : l.search rowid = .ok i) :
    ∃ cell, l.cells[i]? = some cell ∧ cell ∈ l.cells := by
  unfold LeafNode.search at found
  dsimp only at found
  split at found
  · next cell there =>
    split at found
    · obtain rfl := Except.ok.inj found
      exact ⟨cell, there, List.mem_of_getElem? there⟩
    · cases found
  · cases found

/-- Where a descent comes to a page that is no interior node, it goes on nowhere. -/
theorem not_descends {pages : PageContents} {rowid : Int64} {id later : PageId}
    (other : ∀ n, pages.nodeAt id ≠ some (.interior n)) : ¬ pages.Descends rowid id later := by
  rintro ⟨n, isNode, -⟩
  exact other n isNode

theorem descends_iff {pages : PageContents} {rowid : Int64} {id later : PageId} {n : InteriorNode}
    (isNode : pages.nodeAt id = some (.interior n)) :
    pages.Descends rowid id later ↔ later = n.childFor rowid := by
  constructor
  · rintro ⟨n', isNode', rfl⟩
    obtain rfl := Node.interior.inj (Option.some.inj (isNode.symm.trans isNode'))
    rfl
  · rintro rfl
    exact ⟨n, isNode, rfl⟩

/-- **Lookups.** A lookup ends exactly when its descent comes to no page again, and the record it
finds can be read. -/
theorem get_finishes_iff {root : PageId} {rowid : Int64} (parses : PageContents.Parses (contents store)) :
    Finishes (fun fuel => (get fuel root rowid : Exec σ StorageError (Option Bytes))) store ↔
      NoLoop (PageContents.Descends (contents store) rowid) root ∧
        ∀ id, ReflTransGen (PageContents.Descends (contents store) rowid) root id →
          ∀ cell, PageContents.Finds (contents store) rowid id cell →
            PageContents.ValueEnds (contents store) cell := by
  rw [Exec.finishes_iff_exists fun fuel => steady_get fuel root rowid, ← ends_iff_no_loop]
  refine @exists_run_iff PageId (PageContents.Descends (contents store) rowid) (PageId × σ)
    (fun fuel work => Answered (get fuel work.1 rowid work.2))
    (fun work => contents work.2 = contents store) Prod.fst
    (fun id => ∀ cell, PageContents.Finds (contents store) rowid id cell →
      PageContents.ValueEnds (contents store) cell)
    (fun _ => Exec.not_answered_outOfFuel _) ?_ (root, store) rfl
  rintro ⟨cur, reached⟩ same
  dsimp only at same ⊢
  cases isNode : PageContents.nodeAt (contents store) cur with
  | none =>
      have missing : PageContents.nodeAt (contents reached) cur = none := by rwa [same]
      obtain ⟨e, after, failed⟩ := getNode_none (by rwa [same]) missing
      refine Or.inl ⟨fun later => not_descends fun n absurd => ?_, iff_of_true ⟨0, ?_⟩ ?_⟩
      · rw [isNode] at absurd
        cases absurd
      · rw [get, Exec.bind_of_error failed]
        exact Exec.answered_error e after
      · rintro cell ⟨l, i, isLeaf, -⟩
        rw [isNode] at isLeaf
        cases isLeaf
  | some node =>
      have held : PageContents.nodeAt (contents reached) cur = some node := by rwa [same]
      obtain ⟨after, run, keeps⟩ := getNode_some held
      cases node with
      | interior n =>
          refine Or.inr ⟨(n.childFor rowid, after), keeps.trans same, fun later => descends_iff isNode,
            ?_, fun fuel => ?_⟩
          · rintro cell ⟨l, i, isLeaf, -⟩
            rw [isNode] at isLeaf
            cases isLeaf
          · rw [get, Exec.bind_of_ok run]
      | leaf l =>
          refine Or.inl ⟨fun later => not_descends fun n absurd => ?_, ?_⟩
          · rw [isNode] at absurd
            cases absurd
          cases search : l.search rowid with
          | error i =>
              refine iff_of_true ⟨0, ?_⟩ ?_
              · rw [get, Exec.bind_of_ok run]
                simp only [search]
                exact Exec.answered_ok _ _
              · rintro cell ⟨l', i', isLeaf, found, -⟩
                obtain rfl := Node.leaf.inj (Option.some.inj (isNode.symm.trans isLeaf))
                rw [search] at found
                cases found
          | ok i =>
              obtain ⟨cell, there, among⟩ := exists_cell_of_search search
              have has : PageContents.HasCell (contents after) cell := by
                rw [keeps, same]
                exact ⟨cur, l, isNode, among⟩
              have value := readValue_answers_iff has
              rw [keeps, same] at value
              constructor
              · rintro ⟨fuel, answered⟩ cell' ⟨l', i', isLeaf, found, there'⟩
                obtain rfl := Node.leaf.inj (Option.some.inj (isNode.symm.trans isLeaf))
                obtain rfl := Except.ok.inj (search.symm.trans found)
                obtain rfl := Option.some.inj (there.symm.trans there')
                rw [get, Exec.bind_of_ok run] at answered
                simp only [search, there] at answered
                have read := (Exec.answered_bind_iff.mp answered).2 cell after rfl
                exact value.mp ⟨fuel, (Exec.answered_bind_iff.mp read).1⟩
              · intro good
                obtain ⟨fuel, answered⟩ := value.mpr (good cell ⟨l, i, isNode, search, there⟩)
                refine ⟨fuel, ?_⟩
                rw [get, Exec.bind_of_ok run]
                simp only [search, there]
                refine Exec.answered_bind_iff.mpr ⟨Exec.answered_ok _ _, fun found reached' lifted => ?_⟩
                obtain ⟨rfl, rfl⟩ := EStateM.Result.ok.inj lifted
                exact Exec.answered_bind_iff.mpr ⟨answered, fun _ _ _ => Exec.answered_ok _ _⟩

/-- The place of the first key that is not below leads to the child of the rowid. -/
theorem childAt_findIdx (n : InteriorNode) (rowid : Int64) :
    BTreeCursor.childAt n ((n.cells.findIdx? fun cell => decide (rowid ≤ cell.2)).getD n.cells.length) =
      n.childFor rowid := by
  obtain ⟨cells, right⟩ := n
  unfold BTreeCursor.childAt InteriorNode.childFor
  dsimp only
  induction cells with
  | nil => rfl
  | cons cell cells ih =>
      rw [List.findIdx?_cons, List.find?_cons]
      by_cases here : rowid ≤ cell.2
      · simp [here]
      · simp only [here, decide_false, Bool.false_eq_true, if_false]
        cases found : cells.findIdx? fun cell => decide (rowid ≤ cell.2) with
        | none =>
            rw [found] at ih
            simpa using ih
        | some i =>
            rw [found] at ih
            simpa using ih

/-- **Seeks.** A seek ends exactly when its descent comes to no page again. -/
theorem seek_finishes_iff {root : PageId} {rowid : Int64} (parses : PageContents.Parses (contents store)) :
    Finishes (fun fuel => (BTreeCursor.seek fuel root rowid : Exec σ StorageError BTreeCursor)) store ↔
      NoLoop (PageContents.Descends (contents store) rowid) root := by
  refine (Exec.finishes_iff_exists fun fuel => steady_seekLoop rowid fuel root []).trans ?_
  rw [← ends_iff_no_loop]
  have loop := @exists_run_iff PageId (PageContents.Descends (contents store) rowid)
    (PageId × List (InteriorNode × Nat) × σ)
    (fun fuel work => Answered (BTreeCursor.seekLoop rowid fuel work.1 work.2.1 work.2.2))
    (fun work => contents work.2.2 = contents store) Prod.fst (fun _ => True)
    (fun _ => Exec.not_answered_outOfFuel _) ?_ (root, [], store) rfl
  · simpa using loop
  rintro ⟨cur, stack, reached⟩ same
  dsimp only at same ⊢
  cases isNode : PageContents.nodeAt (contents store) cur with
  | none =>
      have missing : PageContents.nodeAt (contents reached) cur = none := by rwa [same]
      obtain ⟨e, after, failed⟩ := getNode_none (by rwa [same]) missing
      refine Or.inl ⟨fun later => not_descends fun n absurd => ?_, iff_of_true ⟨0, ?_⟩ trivial⟩
      · rw [isNode] at absurd
        cases absurd
      · rw [BTreeCursor.seekLoop, Exec.bind_of_error failed]
        exact Exec.answered_error e after
  | some node =>
      have held : PageContents.nodeAt (contents reached) cur = some node := by rwa [same]
      obtain ⟨after, run, keeps⟩ := getNode_some held
      cases node with
      | interior n =>
          refine Or.inr ⟨(n.childFor rowid, (n, (n.cells.findIdx? fun cell =>
            decide (rowid ≤ cell.2)).getD n.cells.length) :: stack, after), keeps.trans same,
            fun later => descends_iff isNode, trivial, fun fuel => ?_⟩
          rw [BTreeCursor.seekLoop, Exec.bind_of_ok run, ← childAt_findIdx]
      | leaf l =>
          refine Or.inl ⟨fun later => not_descends fun n absurd => ?_, iff_of_true ⟨0, ?_⟩ trivial⟩
          · rw [isNode] at absurd
            cases absurd
          · rw [BTreeCursor.seekLoop, Exec.bind_of_ok run]
            exact Exec.answered_ok _ _

end

section

variable {σ : Type} [PageSink σ] [StaticSink σ] {store : Audited σ}

omit [StaticSink σ] in
theorem steady_freeOverflowChain (fuel : Nat) (first : PageId) :
    SteadyAt (fun fuel => (freeOverflowChain fuel first : Exec (Audited σ) StorageError Unit)) fuel := by
  induction fuel generalizing first with
  | zero => exact .zero rfl
  | succ fuel ih =>
      apply SteadyAt.succ
      by_cases more : first ≠ 0
      · simp only [freeOverflowChain, if_pos more]
        apply SteadyAt.bind (.const _ _)
        intro page
        apply SteadyAt.bind (.const _ _)
        intro np
        apply SteadyAt.bind (.const _ _)
        intro freed
        exact ih np
      · simp only [freeOverflowChain, if_neg more]
        exact .const _ _

/-- **Chains that are freed.** -/
theorem freeOverflowChain_finishes_iff {first : PageId} :
    Finishes (fun fuel => (freeOverflowChain fuel first : Exec (Audited σ) StorageError Unit)) store ↔
      PageContents.ChainEnds (contents store) first := by
  rw [Exec.finishes_iff_exists fun fuel => steady_freeOverflowChain fuel first,
    PageContents.ChainEnds, ← ends_iff_no_loop]
  have loop := @exists_run_iff PageId (PageContents.Chained (contents store)) (PageId × Audited σ)
    (fun fuel work => Answered (freeOverflowChain fuel work.1 work.2))
    (fun work => contents work.2 = contents store)
    Prod.fst (fun _ => True) (fun _ => Exec.not_answered_outOfFuel _) ?_ (first, store) rfl
  · simpa using loop
  rintro ⟨next, reached⟩ same
  by_cases more : next ≠ 0
  · cases there : contents store next with
    | none =>
        refine Or.inl ⟨?_, iff_of_true ⟨0, ?_⟩ trivial⟩
        · rintro later ⟨-, data, found, -⟩
          rw [there] at found
          cases found
        · obtain ⟨e, after, failed⟩ := StaticSource.getPage_none (by rw [same]; exact there)
          rw [freeOverflowChain, if_pos more, Exec.bind_of_error failed]
          exact Exec.answered_error e after
    | some data =>
        have held : contents reached next = some data := by rw [same]; exact there
        obtain ⟨after, run, keeps⟩ := StaticSource.getPage_some held
        obtain ⟨freed, free, keeps'⟩ := StaticSink.freePage_static after next
        refine Or.inr ⟨(PageContents.nextOverflow data, freed), (keeps'.trans keeps).trans same, ?_,
          trivial, fun fuel => ?_⟩
        · intro later
          constructor
          · rintro ⟨-, data', found, rfl⟩
            rw [there] at found
            rw [Option.some.inj found]
          · rintro rfl
            exact ⟨more, data, there, rfl⟩
        · have rest : freeOverflowChain (fuel + 1) next reached =
              freeOverflowChain fuel (PageContents.nextOverflow data) freed := by
            rw [freeOverflowChain, if_pos more, Exec.bind_of_ok run, readU32_front]
            refine (Exec.bind_of_ok rfl).trans ?_
            rw [Exec.bind_of_ok free]
          rw [rest]
  · refine Or.inl ⟨fun later link => more link.1, iff_of_true ⟨0, ?_⟩ trivial⟩
    rw [freeOverflowChain, if_neg more]
    exact Exec.answered_ok () reached

end

end BTree

end Squrust.Core
