import Squrust.Core.BTree.RowMap
import Squrust.Core.BTree.SplitSizes

/-!
# Calls of the tree that do not panic

Code that starts when every node written so far fitted its page is quiet (`Quiet`)
when it then writes only nodes that fit, and panics only where a call of the sink
itself does. The tree is quiet on a page of its own and on page 1, whose nodes have
less room, as long as the leaf a record comes to has room for it or can be split
(`Roomy`). Interior nodes always can.
-/

set_option autoImplicit false

namespace Squrust.Core

open Squrust.Foundation

section

variable {σ α β : Type} [PageSink σ] {store : Audited σ}

/-- A call of the sink panicked and left this store. -/
def SinkPanicked (reason : String) (after : Audited σ) : Prop :=
  ∃ sink : σ, (∃ id, PageSource.getPage id sink = .error (.panic reason) after.sink) ∨
    PageSink.allocPage sink = .error (.panic reason) after.sink ∨
    (∃ page, PageSink.putPage page sink = .error (.panic reason) after.sink) ∨
    ∃ id, PageSink.freePage id sink = .error (.panic reason) after.sink

/-- Every node that is written fits, and a panic is one of the sink. -/
structure Quiet (code : Exec (Audited σ) StorageError α) (store : Audited σ) : Prop where
  ok : ∀ ⦃value after⦄, code store = .ok value after → after.allFit = true
  error : ∀ ⦃fault after⦄, code store = .error fault after →
    after.allFit = true ∧ ∀ reason, fault = .panic reason → SinkPanicked reason after

namespace Quiet

theorem pure (value : α) (fit : store.allFit = true) :
    Quiet (return value : Exec (Audited σ) StorageError α) store where
  ok given after run := by
    obtain ⟨_, rfl⟩ := Exec.pure_eq_ok.mp run
    exact fit
  error fault after failed := by cases failed

theorem lift {outcome : Outcome StorageError α} (calm : ∀ reason, outcome ≠ .error (.panic reason))
    (fit : store.allFit = true) : Quiet (Exec.lift outcome : Exec (Audited σ) StorageError α) store where
  ok value after run := by
    obtain ⟨_, rfl⟩ := Exec.lift_eq_ok.mp run
    exact fit
  error fault after failed := by
    obtain ⟨known, rfl⟩ := Exec.lift_eq_error.mp failed
    refine ⟨fit, ?_⟩
    rintro reason rfl
    exact absurd known (calm reason)

theorem lift_ok {outcome : Outcome StorageError α} {value : α} (known : outcome = .ok value)
    (fit : store.allFit = true) : Quiet (Exec.lift outcome : Exec (Audited σ) StorageError α) store :=
  .lift (fun _ panicked => by rw [known] at panicked; cases panicked) fit

theorem outOfFuel (fit : store.allFit = true) :
    Quiet (Exec.outOfFuel : Exec (Audited σ) StorageError α) store :=
  .lift (fun _ panicked => by cases panicked) fit

theorem bind {first : Exec (Audited σ) StorageError α} {next : α → Exec (Audited σ) StorageError β}
    (earlier : Quiet first store)
    (later : ∀ value between, first store = .ok value between → between.allFit = true →
      Quiet (next value) between) : Quiet (first >>= next) store where
  ok value after run := by
    obtain ⟨middle, between, one, two⟩ := Exec.bind_eq_ok.mp run
    exact (later middle between one (earlier.ok one)).ok two
  error fault after failed := by
    rcases Exec.bind_eq_error.mp failed with here | ⟨middle, between, one, two⟩
    · exact earlier.error here
    · exact (later middle between one (earlier.ok one)).error two

/-- A call of the sink. -/
theorem onSink {code : Exec σ StorageError α} (fit : store.allFit = true)
    (own : ∀ reason (sink : σ) (after : Audited σ), code sink = .error (.panic reason) after.sink →
      SinkPanicked reason after) : Quiet (Audited.onSink code) store where
  ok value after run := (Audited.onSink_eq_ok.mp run).2.trans fit
  error fault after failed := by
    obtain ⟨sink, run, rfl⟩ := Exec.onPart_eq_error.mp failed
    refine ⟨fit, ?_⟩
    rintro reason rfl
    exact own reason store.sink { store with sink } run

theorem getPage (id : PageId) (fit : store.allFit = true) :
    Quiet (PageSource.getPage id : Exec (Audited σ) StorageError RawPage) store :=
  .onSink fit fun _ sink _ run => ⟨sink, .inl ⟨id, run⟩⟩

theorem allocPage (fit : store.allFit = true) :
    Quiet (PageSink.allocPage : Exec (Audited σ) StorageError PageId) store :=
  .onSink fit fun _ sink _ run => ⟨sink, .inr (.inl run)⟩

theorem putPage (page : RawPage) (fit : store.allFit = true) :
    Quiet (PageSink.putPage page : Exec (Audited σ) StorageError Unit) store :=
  .onSink fit fun _ sink _ run => ⟨sink, .inr (.inr (.inl ⟨page, run⟩))⟩

theorem freePage (id : PageId) (fit : store.allFit = true) :
    Quiet (PageSink.freePage id : Exec (Audited σ) StorageError Unit) store :=
  .onSink fit fun _ sink _ run => ⟨sink, .inr (.inr (.inr ⟨id, run⟩))⟩

end Quiet

end

/-! ## Nodes and chains -/

/-- A copy that stays on the page. -/
theorem PageData.copyFrom_returns {data : PageData} {offset : Nat} {bytes : Bytes}
    (within : offset + bytes.length ≤ pageSize) : ∃ result, data.copyFrom offset bytes = .ok result := by
  have fits : offset + bytes.length ≤ data.val.length := by rwa [data.property]
  have spliced : splice data.val offset bytes =
      some (data.val.take offset ++ bytes ++ data.val.drop (offset + bytes.length)) := if_pos fits
  exact ⟨⟨_, (length_of_splice spliced).trans data.property⟩, PageData.copyFrom_eq_ok.mpr spliced⟩

theorem Node.readU32_returns (data : PageData) : ∃ value, Node.readU32 data 0 = .ok value := by
  have fits : 0 + 4 ≤ data.val.length := by
    rw [data.property]
    decide
  have sliced : data.slice 0 4 = .ok ((data.val.drop 0).take 4) := by
    rw [PageData.slice, pread, if_pos fits]
    rfl
  exact ⟨_, by rw [Node.readU32, sliced]; rfl⟩

namespace BTree

section

variable {σ : Type} [PageSink σ] {store : Audited σ}

theorem quiet_writeNode {id : PageId} {node : Node} (fits : node.fits id = true)
    (fit : store.allFit = true) : Quiet (writeNode id node) store := by
  obtain ⟨written, wrote, _⟩ := @Node.serializeInto_of_fits node (RawPage.new id) fits
  have noted : Quiet (Audited.note (node.fits id)) store := by
    refine ⟨?_, fun fault after failed => by cases failed⟩
    intro _ after run
    rw [Audited.note_eq_ok.mp run, fits, fit]
    rfl
  refine .bind noted fun _ _ _ fit => .bind (.lift_ok wrote fit) fun page _ _ fit => .putPage page fit

theorem quiet_freeOverflowChain (fuel : Nat) (next : PageId) (fit : store.allFit = true) :
    Quiet (freeOverflowChain fuel next) store := by
  induction fuel generalizing next store with
  | zero => exact .outOfFuel fit
  | succ fuel ih =>
      rw [freeOverflowChain]
      split
      · refine .bind (.getPage next fit) fun page _ _ fit => ?_
        obtain ⟨np, read⟩ := Node.readU32_returns page.data
        exact .bind (.lift_ok read fit) fun np _ _ fit => .bind (.freePage next fit) fun _ _ _ fit =>
          ih np fit
      · exact .pure () fit

theorem quiet_releaseChain (fuel : Nat) (freed : PageId) (fit : store.allFit = true) :
    Quiet (releaseChain fuel freed) store := by
  rw [releaseChain]
  split
  · exact quiet_freeOverflowChain fuel freed fit
  · exact .pure () fit

theorem quiet_allocAll (chunks : List Bytes) (fit : store.allFit = true) :
    Quiet (allocAll chunks) store := by
  induction chunks generalizing store with
  | nil => exact .pure _ fit
  | cons chunk chunks ih =>
      exact .bind (.allocPage fit) fun _ _ _ fit => .bind (ih fit) fun _ _ _ fit => .pure _ fit

theorem length_allocAll {chunks : List Bytes} {ids : List PageId} {after : Audited σ}
    (run : allocAll chunks store = .ok ids after) : ids.length = chunks.length := by
  induction chunks generalizing store ids after with
  | nil =>
      obtain ⟨rfl, _⟩ := Exec.pure_eq_ok.mp run
      rfl
  | cons chunk chunks ih =>
      simp only [allocAll, Exec.bind_eq_ok, Exec.pure_eq_ok] at run
      obtain ⟨id, _, _, rest, _, allocated, rfl, _⟩ := run
      rw [List.length_cons, List.length_cons, ih allocated]

theorem quiet_putChunks (ids : List PageId) {chunks : List Bytes}
    (chunked : Chunked chunks) (fit : store.allFit = true) : Quiet (putChunks ids chunks) store := by
  induction ids generalizing chunks store with
  | nil => exact .pure () fit
  | cons id ids ih =>
      cases chunks with
      | nil => exact .pure () fit
      | cons chunk chunks =>
          obtain ⟨room, _, chunked⟩ := chunked
          obtain ⟨pointed, copied⟩ := @PageData.copyFrom_returns (RawPage.new id).data 0
            (bigEndian 4 (ids.headD 0).toNat) (by rw [length_bigEndian]; decide)
          refine .bind (.lift_ok copied fit) fun data _ _ fit => ?_
          obtain ⟨filled, copied'⟩ := @PageData.copyFrom_returns data 4 chunk
            ((Nat.add_le_add_left room 4).trans (by decide))
          exact .bind (.lift_ok copied' fit) fun data _ _ fit => .bind (.putPage _ fit)
            fun _ _ _ fit => ih chunked fit

theorem quiet_writeOverflow {tail : Bytes} (some : tail ≠ []) (fit : store.allFit = true) :
    Quiet (writeOverflow tail) store := by
  obtain ⟨chunked, whole⟩ := chunksUpTo_spec tail.length tail le_rfl
  refine .bind (quiet_allocAll _ fit) fun ids between run fit =>
    .bind (quiet_putChunks ids chunked fit) fun _ _ _ fit => ?_
  have count := length_allocAll run
  cases ids with
  | nil =>
      have none : chunksUpTo tail.length tail = [] := List.eq_nil_of_length_eq_zero count.symm
      rw [none] at whole
      exact absurd whole.symm some
  | cons id ids => exact .lift_ok rfl fit

theorem quiet_makeCell (rowid : Int64) (record : Record) (fit : store.allFit = true) :
    Quiet (makeCell rowid record) store := by
  have size : (UInt64.ofNat record.val.length).toNat = record.val.length :=
    UInt64.toNat_ofNat_of_lt' (record.property.trans (by decide))
  unfold makeCell
  simp only [size]
  split
  · exact .pure _ fit
  · next long =>
    have some : record.val.drop (inlineLenFor record.val.length) ≠ [] := by
      rw [ne_eq, List.drop_eq_nil_iff, not_le]
      exact inlineLenFor_lt (not_le.mp long)
    exact .bind (quiet_writeOverflow some fit) fun _ _ _ fit => .pure _ fit

end

/-! ## Room for a record -/

/-- The cell the tree makes for a record: which page its rest is on does not matter. -/
structure MadeFor (rowid : Int64) (record : Record) (cell : LeafCell) : Prop where
  rowid : cell.rowid = rowid
  payload : cell.payloadLen.toNat = record.val.length
  inlined : cell.inlined = record.val.take (inlineLenFor record.val.length)
  spills : cell.overflow = 0 ↔ record.val.length ≤ maxInline

theorem MadeFor.shaped {rowid : Int64} {record : Record} {cell : LeafCell}
    (made : MadeFor rowid record cell) : cell.Shaped := by
  have stored : inlineLenFor record.val.length ≤ record.val.length := by
    by_cases short : record.val.length ≤ maxInline
    · exact (inlineLenFor_of_le short).le
    · exact (inlineLenFor_lt (not_le.mp short)).le
  refine ⟨?_, by rw [made.spills, made.payload]⟩
  rw [made.inlined, made.payload, List.length_take, Nat.min_eq_left stored]

/-- With the record, the leaf fits its page, or it has two cells or more and the cells
up to the one at which half of the bytes are reached fit it. -/
def Roomy (pageId : PageId) (leaf : LeafNode) (rowid : Int64) (record : Record) : Prop :=
  ∀ cell freed grown, MadeFor rowid record cell → placeCell leaf cell = .ok (freed, grown) →
    grown.fits pageId = true ∨ 2 ≤ grown.cells.length ∧ grown.HalfFits pageId

/-- The leaf a rowid belongs to, below a page. -/
inductive LeafFor (view : View PageId PageData) (rowid : Int64) : PageId → PageId → LeafNode → Prop
  | leaf {id : PageId} {leaf : LeafNode} (holds : Holds view id (.leaf leaf)) : LeafFor view rowid id id leaf
  | interior {id leafId : PageId} {node : InteriorNode} {leaf : LeafNode}
      (holds : Holds view id (.interior node))
      (below : LeafFor view rowid (node.childFor rowid) leafId leaf) : LeafFor view rowid id leafId leaf

theorem placeCell_returns (leaf : LeafNode) (cell : LeafCell) :
    ∃ freed grown, placeCell leaf cell = .ok (freed, grown) := by
  unfold placeCell LeafNode.search
  simp only
  split
  · next i found =>
    split at found
    · next old at_i =>
      split at found
      · obtain rfl := Except.ok.inj found
        exact ⟨old.overflow, _, by rw [at_i]; rfl⟩
      · cases found
    · cases found
  · exact ⟨_, _, rfl⟩

theorem linkSplit_returns {node : InteriorNode} {pos : Option Nat} {child : PageId} (split : Split)
    (at_pos : childAtPos node pos = .ok child) : ∃ linked, linkSplit node pos child split = .ok linked := by
  cases pos with
  | none => exact ⟨_, rfl⟩
  | some i =>
      obtain ⟨⟨oldChild, oldKey⟩, at_i, _⟩ := Outcome.bind_eq_ok.mp at_pos
      exact ⟨_, by rw [linkSplit, at_i]; rfl⟩

/-! ## Inserting -/

section

variable {σ : Type} [PageSink σ] [MapSink σ] {store : Audited σ}

theorem quiet_getNode {id : PageId} {node : Node} (holds : Holds (view store) id node)
    (fit : store.allFit = true) : Quiet (getNode id) store := by
  refine .bind (.getPage id fit) fun page between run fit => ?_
  obtain ⟨data, held, parsed, _⟩ := holds
  obtain ⟨rfl, _⟩ := getPage_ok held run
  exact .lift_ok parsed fit

/-- A page that is given out is none that is in use. -/
theorem allocPage_ne {id used : PageId} {after : Audited σ} (inUse : view store used ≠ .free)
    (run : (PageSink.allocPage : Exec (Audited σ) StorageError PageId) store = .ok id after) :
    id ≠ used := by
  rintro rfl
  exact inUse (MapSink.allocPage_ok inUse run).2.1

theorem quiet_storeLeaf {id : PageId} {leaf grown : LeafNode} {cell : LeafCell} {freed : PageId}
    (fits : leaf.fits id = true) (shaped : cell.Shaped)
    (placed : placeCell leaf cell = .ok (freed, grown))
    (roomy : grown.fits id = true ∨ 2 ≤ grown.cells.length ∧ grown.HalfFits id)
    (one : view store 1 ≠ .free) (fit : store.allFit = true) : Quiet (storeLeaf id grown) store := by
  unfold storeLeaf
  by_cases room : grown.fits id = true
  · rw [if_pos room]
    exact .bind (quiet_writeNode room fit) fun _ _ _ fit => .pure _ fit
  · obtain ⟨several, half⟩ := roomy.resolve_left room
    obtain ⟨left, right, sep, split, rightFits, leftFits⟩ :=
      splitLeaf_halves fits shaped placed several
    rw [if_neg room, split, Exec.lift_ok_bind]
    refine .bind (.allocPage fit) fun rightPage _ run fit => ?_
    have other := allocPage_ne one run
    exact .bind (quiet_writeNode (leftFits.mpr half) fit) fun _ _ _ fit =>
      .bind (quiet_writeNode (rightFits rightPage other) fit) fun _ _ _ fit => .pure _ fit

theorem quiet_storeInterior {id : PageId} {node linked : InteriorNode} {pos : Option Nat}
    {child : PageId} {split : Split} (fits : node.fits id = true)
    (link : linkSplit node pos child split = .ok linked) (one : view store 1 ≠ .free)
    (fit : store.allFit = true) : Quiet (storeInterior id linked) store := by
  unfold storeInterior
  by_cases room : linked.fits id = true
  · rw [if_pos room]
    exact .bind (quiet_writeNode room fit) fun _ _ _ fit => .pure _ fit
  · obtain ⟨left, right, sep, halves, leftFits, rightFits⟩ :=
      splitInterior_fits fits link (Bool.not_eq_true _ ▸ room)
    rw [if_neg room, halves, Exec.lift_ok_bind]
    refine .bind (.allocPage fit) fun rightPage _ run fit => ?_
    have other := allocPage_ne one run
    exact .bind (quiet_writeNode leftFits fit) fun _ _ _ fit =>
      .bind (quiet_writeNode (rightFits rightPage other) fit) fun _ _ _ fit => .pure _ fit

/-- The recursion is quiet when the leaf of the rowid has room. -/
theorem quiet_insertRec {fuel depth : Nat} {low high : Bound Int64} {id : PageId} {entries : Rows}
    {pages : List PageId} {slot : LeafSlot}
    (subtree : Subtree (view store) depth low high id entries pages)
    (inside : InRange low high slot.cell.rowid) (stored : slot.Stored (view store))
    (distinct : (pages ++ slot.chain).Nodup) (one : view store 1 ≠ .free)
    (outside : id = 1 ∨ 1 ∉ pages ++ slot.chain)
    (roomy : ∀ leafId leaf, LeafFor (view store) slot.cell.rowid id leafId leaf →
      Roomy leafId leaf slot.cell.rowid slot.record)
    (fit : store.allFit = true) : Quiet (insertRec fuel id slot.cell) store := by
  induction fuel generalizing depth low high id entries pages store with
  | zero => exact .outOfFuel fit
  | succ fuel ih =>
      obtain ⟨node, owned, holds, body, rfl⟩ := subtree
      have made : MadeFor slot.cell.rowid slot.record slot.cell :=
        ⟨rfl, stored.payload, stored.inlined, stored.spills⟩
      refine .bind (quiet_getNode holds fit) fun got read get fit => ?_
      obtain ⟨rfl, same⟩ := getNode_ok holds get
      rw [← same] at holds body stored one roomy
      cases depth with
      | zero =>
          obtain ⟨l, rfl⟩ := body.leaf_of_zero
          obtain ⟨freed, grown, placed⟩ := placeCell_returns l slot.cell
          have room := roomy id l (.leaf holds) slot.cell freed grown made placed
          simp only [placed, Exec.lift_ok_bind]
          exact .bind (quiet_storeLeaf holds.fits made.shaped placed room one fit) fun _ _ _ fit =>
            .bind (quiet_releaseChain _ _ fit) fun _ _ _ fit => .pure _ fit
      | succ depth =>
          obtain ⟨n, rfl⟩ := body.interior_of_succ
          obtain ⟨pos, child, start, stop, before, held, rowsAfter, pagesBefore, pagesChild,
            pagesAfter, descent, rfl, rfl⟩ := body.descent inside
          simp only [descent.position, descent.childAtPos, Exec.lift_ok_bind]
          have childDistinct : (pagesChild ++ slot.chain).Nodup :=
            distinct.sublist (.append (((List.sublist_append_right _ _).trans
              (List.sublist_append_left _ _)).cons _) (.refl _))
          -- page 1 is not below
          have apart : 1 ∉ pagesChild ++ slot.chain := by
            intro member
            have later : 1 ∈ pagesBefore ++ pagesChild ++ pagesAfter ++ slot.chain := by
              simp only [List.mem_append] at member ⊢
              tauto
            rcases outside with rfl | outside
            · exact (List.nodup_cons.mp distinct).1 later
            · exact outside (List.mem_cons_of_mem _ later)
          have below : ∀ leafId leaf, LeafFor (view read) slot.cell.rowid child leafId leaf →
              Roomy leafId leaf slot.cell.rowid slot.record := by
            intro leafId leaf found
            exact roomy leafId leaf (.interior holds (descent.childFor ▸ found))
          refine .bind (ih descent.found descent.inside stored childDistinct one (.inr apart) below fit)
            fun split between recursion fit => ?_
          cases split with
          | none => exact .pure _ fit
          | some split =>
              obtain ⟨linked, link⟩ := linkSplit_returns split descent.childAtPos
              obtain ⟨_, _, _, replaces⟩ :=
                insertRec_ok descent.found descent.inside stored childDistinct recursion fit
              have one' : view between 1 ≠ .free := by
                rw [(replaces.kept one apart).2]
                exact one
              rw [afterChild, link, Exec.lift_ok_bind]
              exact quiet_storeInterior holds.fits link one' fit

end

/-! ## The tree on page 1 -/

/-- The leaf of a rowid is found on the pages of the subtree. -/
theorem LeafFor.congr {seen seen' : View PageId PageData} {depth : Nat} {low high : Bound Int64}
    {id leafId : PageId} {entries : Rows} {pages : List PageId} {rowid : Int64} {leaf : LeafNode}
    (subtree : Subtree seen depth low high id entries pages) (inside : InRange low high rowid)
    (same : ∀ page ∈ pages, seen' page = seen page) (found : LeafFor seen' rowid id leafId leaf) :
    LeafFor seen rowid id leafId leaf := by
  induction depth generalizing low high id entries pages with
  | zero =>
      obtain ⟨node, owned, holds, body, rfl⟩ := subtree
      obtain ⟨l, rfl⟩ := body.leaf_of_zero
      have here := (same id List.mem_cons_self).symm
      cases found with
      | leaf holds' => exact .leaf (holds'.congr here)
      | interior holds' _ => cases holds.unique (holds'.congr here)
  | succ depth ih =>
      obtain ⟨node, owned, holds, body, rfl⟩ := subtree
      obtain ⟨n, rfl⟩ := body.interior_of_succ
      obtain ⟨pos, child, start, stop, before, held, rowsAfter, pagesBefore, pagesChild,
        pagesAfter, descent, rfl, rfl⟩ := body.descent inside
      have here := (same id List.mem_cons_self).symm
      cases found with
      | leaf holds' => cases holds.unique (holds'.congr here)
      | interior holds' below =>
          cases holds.unique (holds'.congr here)
          refine .interior holds ?_
          rw [descent.childFor] at below ⊢
          refine ih descent.found descent.inside (fun page member => same page ?_) below
          simp only [List.mem_cons, List.mem_append]
          tauto

/-- What fits page 1 fits every page. -/
theorem fits_of_fits_page1 {node : Node} (fits : node.fits 1 = true) (id : PageId) :
    node.fits id = true := by
  have most := headerOffset_le id
  have first : headerOffset 1 = 100 := rfl
  cases node with
  | leaf l =>
      have room := LeafNode.fits_iff.mp fits
      apply LeafNode.fits_iff.mpr
      rw [LeafNode.used] at room ⊢
      omega
  | interior n =>
      have room := InteriorNode.fits_iff.mp fits
      apply InteriorNode.fits_iff.mpr
      rw [InteriorNode.used] at room ⊢
      omega

/-- A leaf that fits does so without one of its cells. -/
theorem fits_eraseIdx {l : LeafNode} {id : PageId} (fits : (Node.leaf l).fits id = true) (i : Nat) :
    (Node.leaf ⟨l.cells.eraseIdx i⟩).fits id = true := by
  have room := LeafNode.fits_iff.mp fits
  apply LeafNode.fits_iff.mpr
  have fewer := (List.eraseIdx_sublist l.cells i).length_le
  have smaller := cellsLen_sublist (List.eraseIdx_sublist l.cells i)
  rw [LeafNode.used_eq] at room ⊢
  simp only
  omega

theorem newRoot_fits (id left right : PageId) (key : Int64) :
    (Node.interior ⟨[(left, key)], right⟩).fits id = true := by
  have most := headerOffset_le id
  have small := Varint.len_le_nine (zigzag key)
  apply InteriorNode.fits_iff.mpr
  rw [InteriorNode.used_eq]
  simp only [List.map_cons, List.map_nil, keysLen_cons, keysLen_nil, InteriorNode.cellLen, pageSize]
  omega

section

variable {σ : Type} [PageSink σ] [MapSink σ] {store : Audited σ} {entries : Rows}
  {pages : List PageId}

theorem quiet_growRoot {node : Node} (holds : Holds (view store) 1 node) (split : Split)
    (fit : store.allFit = true) : Quiet (growRoot 1 split) store := by
  refine .bind (quiet_getNode holds fit) fun got read get fit => ?_
  obtain ⟨rfl, _⟩ := getNode_ok holds get
  exact .bind (.allocPage fit) fun leftPage _ _ fit =>
    .bind (quiet_writeNode (fits_of_fits_page1 holds.fits leftPage) fit) fun _ _ _ fit =>
      quiet_writeNode (newRoot_fits 1 leftPage split.rightPage split.sepKey) fit

theorem quiet_insert {fuel : Nat} {rowid : Int64} {record : Record}
    (tree : Tree (view store) 1 entries pages)
    (roomy : ∀ leafId leaf, LeafFor (view store) rowid 1 leafId leaf → Roomy leafId leaf rowid record)
    (fit : store.allFit = true) : Quiet (insert fuel 1 rowid record) store := by
  obtain ⟨depth, subtree, distinct⟩ := tree
  have one : view store 1 ≠ .free := by
    obtain ⟨node, owned, holds, _, _⟩ := subtree
    exact holds.live
  refine .bind (quiet_makeCell rowid record fit) fun cell made make fit => ?_
  obtain ⟨chain, rfl, stored, nodup, taken, -⟩ := makeCell_ok one make
  have distinct' : (pages ++ chain).Nodup :=
    taken.nodup_frame distinct nodup subtree.live (by simp)
  have same : ∀ page ∈ pages, view made page = view store page := fun page member =>
    (taken.kept (subtree.live page member) (by simp)).2
  have inside : InRange ⊥ ⊤ cell.rowid := ⟨Bound.bot_lt_key _, Bound.key_le_top _⟩
  have one' : view made 1 ≠ .free := by
    rw [(taken.kept one (by simp)).2]
    exact one
  refine .bind (quiet_insertRec (subtree.congr same) inside stored distinct' one' (.inl rfl)
    (fun leafId leaf found => roomy leafId leaf (found.congr subtree inside same)) fit)
    fun result between recursion fit => ?_
  cases result with
  | none => exact .pure () fit
  | some split =>
      obtain ⟨pages', grown, _, _⟩ :=
        insertRec_ok (subtree.congr same) inside stored distinct' recursion fit
      obtain ⟨_, _, _, _, ⟨node, owned, holds, _, _⟩, _⟩ := grown
      exact quiet_growRoot holds split fit

theorem quiet_delete {fuel depth : Nat} {low high : Bound Int64} {id : PageId} {rowid : Int64}
    (subtree : Subtree (view store) depth low high id entries pages) (inside : InRange low high rowid)
    (fit : store.allFit = true) : Quiet (delete fuel id rowid) store := by
  induction fuel generalizing depth low high id entries pages store with
  | zero => exact .outOfFuel fit
  | succ fuel ih =>
      obtain ⟨node, owned, holds, body, rfl⟩ := subtree
      refine .bind (quiet_getNode holds fit) fun got read get fit => ?_
      obtain ⟨rfl, same⟩ := getNode_ok holds get
      rw [← same] at holds body
      cases depth with
      | zero =>
          obtain ⟨l, rfl⟩ := body.leaf_of_zero
          obtain ⟨_, _, ascending, cells⟩ := body_leaf.mp body
          cases search : l.search rowid with
          | ok i =>
              obtain ⟨slot, _, at_i, _⟩ := removeCell_ok cells ascending search
              have less : (Node.leaf ⟨l.cells.eraseIdx i⟩).fits id = true :=
                fits_eraseIdx holds.fits i
              simp only [search, at_i, Outcome.orPanic, Exec.lift_ok_bind]
              exact .bind (quiet_writeNode less fit) fun _ _ _ fit =>
                .bind (quiet_releaseChain _ _ fit) fun _ _ _ fit => .pure _ fit
          | error i =>
              simp only [search]
              exact .pure _ fit
      | succ depth =>
          obtain ⟨n, rfl⟩ := body.interior_of_succ
          obtain ⟨pos, child, start, stop, before, held, rowsAfter, pagesBefore, pagesChild,
            pagesAfter, descent, rfl, rfl⟩ := body.descent inside
          simp only [descent.childFor]
          exact ih descent.found descent.inside fit

/-- The leaf the record of a call comes to has room for it. A delete needs none. -/
def CallRoomy (root : PageId) (store : Audited σ) : Call → Prop
  | .insert rowid record =>
      ∀ leafId leaf, LeafFor (view store) rowid root leafId leaf → Roomy leafId leaf rowid record
  | .delete _ => True

/-- The same for every call of a sequence, in the state in which it is its turn. -/
def RunRoomy (root : PageId) : List (Call × Nat) → Audited σ → Prop
  | [], _ => True
  | (one, fuel) :: rest, store => CallRoomy root store one ∧
      ∀ reply after, call root fuel one store = .ok reply after → RunRoomy root rest after

/-- **Page 1.** On the tree at page 1, calls whose leaves have room write only nodes that
fit their pages, and none of them panics, unless it is a call of the sink that does. -/
theorem quiet_calls_page1 {steps : List (Call × Nat)} (tree : Tree (view store) 1 entries pages)
    (roomy : RunRoomy 1 steps store) (fit : store.allFit = true) : Quiet (calls 1 steps) store := by
  induction steps generalizing store entries pages with
  | nil => exact .pure _ fit
  | cons step steps ih =>
      obtain ⟨one, fuel⟩ := step
      have quiet : Quiet (call 1 fuel one) store := by
        cases one with
        | insert rowid record =>
            exact .bind (quiet_insert tree roomy.1 fit) fun _ _ _ fit => .pure _ fit
        | delete rowid =>
            obtain ⟨depth, subtree, _⟩ := tree
            exact .bind (quiet_delete subtree ⟨Bound.bot_lt_key _, Bound.key_le_top _⟩ fit)
              fun _ _ _ fit => .pure _ fit
      refine .bind quiet fun reply between run fit => ?_
      obtain ⟨_, entries', pages', tree', _⟩ := call_refines tree run fit
      exact .bind (ih tree' (roomy.2 reply between run) fit) fun _ _ _ fit => .pure _ fit

end

/-! ## A record that fills a page -/

/-- A record of 4000 bytes. -/
def largeRecord : Record := ⟨List.replicate 4000 0, by rw [List.length_replicate]; decide⟩

/-- An empty tree on page 1, and what a call then does. -/
def onPage1 (record : Record) (test : EStateM.Result (Fault StorageError) (Audited MemStore)
    (List Reply) → Bool) : Bool :=
  Exec.leaves (writeNode 1 Node.emptyLeaf) (⟨MemStore.new, true⟩ : Audited MemStore) fun _ store =>
    test (calls 1 [(.insert 1 record, 3)] store)

theorem exists_of_onPage1 {record : Record} {test : EStateM.Result (Fault StorageError)
    (Audited MemStore) (List Reply) → Bool} (holds : onPage1 record test = true) :
    ∃ store : Audited MemStore, Tree (view store) 1 [] [1] ∧ Holds (view store) 1 Node.emptyLeaf ∧
      store.allFit = true ∧ test (calls 1 [(.insert 1 record, 3)] store) = true := by
  obtain ⟨_, store, run, tested⟩ := Exec.exists_of_leaves holds
  have quiet : Quiet (writeNode 1 Node.emptyLeaf) (⟨MemStore.new, true⟩ : Audited MemStore) :=
    quiet_writeNode (by decide) rfl
  have fit := quiet.ok run
  have body : Body (view (⟨MemStore.new, true⟩ : Audited MemStore)) 0 ⊥ ⊤ Node.emptyLeaf [] [] :=
    ⟨bot_lt_top, by simp, .nil, [], rfl, rfl, rfl, by simp⟩
  obtain ⟨subtree, _⟩ := writeNode_subtree body (by simp) MemStore.new_inUse run fit
  obtain ⟨data, written, parsed, fits⟩ := writeNode_ok body.shaped MemStore.new_inUse run fit
  exact ⟨store, ⟨0, subtree, by simp⟩, ⟨data, by rw [written, View.set_self], parsed, fits⟩, fit,
    tested⟩

theorem largeRecord_panics : onPage1 largeRecord (fun
    | .error (.panic reason) _ => reason == "assertion failed: min <= max"
    | _ => false) = true := by
  decide +kernel

/-- One record for the empty leaf of page 1: there is no second cell to split it at. -/
theorem insert_panics_page1 : ∃ store after : Audited MemStore, Tree (view store) 1 [] [1] ∧
    store.allFit = true ∧ calls 1 [(.insert 1 largeRecord, 3)] store =
      .error (.panic "assertion failed: min <= max") after := by
  obtain ⟨store, tree, _, fit, tested⟩ := exists_of_onPage1 largeRecord_panics
  cases run : calls 1 [(.insert 1 largeRecord, 3)] store with
  | ok replies after =>
      rw [run] at tested
      cases tested
  | error fault after =>
      rw [run] at tested
      cases fault with
      | panic reason =>
          obtain rfl := beq_iff_eq.mp tested
          exact ⟨store, after, tree, fit, run⟩
      | error e => cases tested
      | outOfFuel => cases tested

/-- A record of three bytes has room there. -/
theorem quiet_calls_page1_small : ∃ store : Audited MemStore,
    Quiet (calls 1 [(.insert 1 ⟨[1, 2, 3], by decide⟩, 3)]) store := by
  obtain ⟨store, tree, empty, fit, _⟩ :=
    @exists_of_onPage1 ⟨[1, 2, 3], by decide⟩ (fun _ => true) (by decide +kernel)
  refine ⟨store, quiet_calls_page1 tree ⟨?_, fun _ _ _ => trivial⟩ fit⟩
  intro leafId leaf found
  cases found with
  | interior holds _ => cases empty.unique holds
  | leaf holds =>
      cases empty.unique holds
      intro cell freed grown made placed
      left
      obtain ⟨_, rfl⟩ := Prod.mk.inj (Except.ok.inj placed)
      have payload := Varint.len_le_nine cell.payloadLen
      have rowid := Varint.len_le_nine cell.rowid.toUInt64
      have inlined : cell.inlined.length = 3 := by
        rw [made.inlined]
        decide
      have whole : cell.overflow = 0 := made.spills.mpr (by decide)
      have first : headerOffset 1 = 100 := rfl
      apply LeafNode.fits_iff.mpr
      rw [LeafNode.used_eq, first]
      simp only [List.insertIdx_zero, List.length_singleton, cellsLen_cons, cellsLen_nil, leafCellLen,
        inlined, whole, pageSize, List.takeWhile_nil, List.length_nil]
      simp
      omega

end BTree

end Squrust.Core
