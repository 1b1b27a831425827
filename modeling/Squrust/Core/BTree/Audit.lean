import Squrust.Core.BTree.Tree

/-!
# Runs that stay within the pages

A node that does not fit its page is noted for good: when every node fitted at
the end of a call, every node fitted before it (`Tracked`). Each operation of the
tree is tracked because its parts are.
-/

set_option autoImplicit false

namespace Squrust.Core

open Squrust.Foundation

namespace Audited

variable {ε σ α β : Type}

theorem onSink_eq_ok {code : Exec σ StorageError α} {value : α} {audited after : Audited σ} :
    onSink code audited = .ok value after ↔
      code audited.sink = .ok value after.sink ∧ after.allFit = audited.allFit := by
  rw [onSink, Exec.onPart_eq_ok]
  constructor
  · rintro ⟨sink, run, rfl⟩
    exact ⟨run, rfl⟩
  · rintro ⟨run, same⟩
    exact ⟨after.sink, run, by rw [← same]⟩

theorem note_eq_ok {fits : Bool} {audited after : Audited σ} :
    note fits audited = .ok () after ↔
      after = { audited with allFit := audited.allFit && fits } := by
  simp [note, eq_comm]

/-- When every node fitted after the call, whether it returned or failed, every node
fitted before it. -/
structure Tracked (code : Exec (Audited σ) ε α) : Prop where
  ok : ∀ ⦃store after : Audited σ⦄ ⦃value : α⦄, code store = .ok value after →
    after.allFit = true → store.allFit = true
  error : ∀ ⦃store after : Audited σ⦄ ⦃fault : Fault ε⦄, code store = .error fault after →
    after.allFit = true → store.allFit = true

instance {code : Exec (Audited σ) ε α} : CoeFun (Tracked code) fun _ =>
    ∀ ⦃store after : Audited σ⦄ ⦃value : α⦄, code store = .ok value after →
      after.allFit = true → store.allFit = true :=
  ⟨Tracked.ok⟩

namespace Tracked

theorem pure (value : α) : Tracked (return value : Exec (Audited σ) ε α) where
  ok store after given run fit := by
    obtain ⟨_, rfl⟩ := Exec.pure_eq_ok.mp run
    exact fit
  error store after fault failed := by cases failed

theorem lift (outcome : Outcome ε α) : Tracked (Exec.lift outcome : Exec (Audited σ) ε α) where
  ok store after given run fit := by
    obtain ⟨_, rfl⟩ := Exec.lift_eq_ok.mp run
    exact fit
  error store after fault failed fit := by
    obtain ⟨_, rfl⟩ := Exec.lift_eq_error.mp failed
    exact fit

theorem outOfFuel : Tracked (Exec.outOfFuel : Exec (Audited σ) ε α) := lift _

theorem bind {first : Exec (Audited σ) ε α} {next : α → Exec (Audited σ) ε β}
    (earlier : Tracked first) (later : ∀ value, Tracked (next value)) : Tracked (first >>= next) where
  ok store after given run fit := by
    obtain ⟨value, between, one, two⟩ := Exec.bind_eq_ok.mp run
    exact earlier.ok one ((later value).ok two fit)
  error store after fault failed fit := by
    rcases Exec.bind_eq_error.mp failed with here | ⟨value, between, one, two⟩
    · exact earlier.error here fit
    · exact earlier.ok one ((later value).error two fit)

theorem mapError {ε' : Type} {code : Exec (Audited σ) ε α} (f : ε → ε') (tracked : Tracked code) :
    Tracked (Exec.mapError f code) where
  ok _ _ _ run := tracked.ok (Exec.mapError_eq_ok.mp run)
  error store after fault failed := by
    obtain ⟨fault', failed, _⟩ := Exec.mapError_eq_error.mp failed
    exact tracked.error failed

theorem onSink (code : Exec σ StorageError α) : Tracked (Audited.onSink code) where
  ok store after given run fit := by
    rw [← (onSink_eq_ok.mp run).2]
    exact fit
  error store after fault failed fit := by
    obtain ⟨sink, _, rfl⟩ := Exec.onPart_eq_error.mp failed
    exact fit

theorem note (fits : Bool) : Tracked (Audited.note fits : Exec (Audited σ) StorageError Unit) where
  ok store after given run fit := by
    rw [note_eq_ok.mp run, Bool.and_eq_true] at fit
    exact fit.1
  error store after fault failed := by cases failed

end Tracked

end Audited

namespace BTree

open Audited

variable {σ : Type} [PageSink σ]

theorem tracked_getNode (id : PageId) :
    Tracked (getNode id : Exec (Audited σ) StorageError Node) :=
  .bind (.onSink _) fun _ => .lift _

theorem tracked_writeNode (id : PageId) (node : Node) :
    Tracked (writeNode id node : Exec (Audited σ) StorageError Unit) :=
  .bind (.note _) fun _ => .bind (.lift _) fun _ => .onSink _

theorem tracked_freeOverflowChain (fuel : Nat) (next : PageId) :
    Tracked (freeOverflowChain fuel next : Exec (Audited σ) StorageError Unit) := by
  induction fuel generalizing next with
  | zero => exact .outOfFuel
  | succ fuel ih =>
      rw [freeOverflowChain]
      split
      · exact .bind (.onSink _) fun _ => .bind (.lift _) fun _ => .bind (.onSink _) fun _ => ih _
      · exact .pure _

theorem tracked_releaseChain (fuel : Nat) (freed : PageId) :
    Tracked (releaseChain fuel freed : Exec (Audited σ) StorageError Unit) := by
  rw [releaseChain]
  split
  · exact tracked_freeOverflowChain fuel freed
  · exact .pure _

theorem tracked_allocAll (chunks : List Bytes) :
    Tracked (allocAll chunks : Exec (Audited σ) StorageError (List PageId)) := by
  induction chunks with
  | nil => exact .pure _
  | cons chunk chunks ih => exact .bind (.onSink _) fun _ => .bind ih fun _ => .pure _

theorem tracked_putChunks (ids : List PageId) (chunks : List Bytes) :
    Tracked (putChunks ids chunks : Exec (Audited σ) StorageError Unit) := by
  induction ids generalizing chunks with
  | nil => exact .pure _
  | cons id ids ih =>
      cases chunks with
      | nil => exact .pure _
      | cons chunk chunks =>
          exact .bind (.lift _) fun _ => .bind (.lift _) fun _ => .bind (.onSink _) fun _ => ih chunks

theorem tracked_makeCell (rowid : Int64) (record : Record) :
    Tracked (makeCell rowid record : Exec (Audited σ) StorageError LeafCell) := by
  unfold makeCell
  simp only
  split
  · exact .pure _
  · refine .bind ?_ fun _ => .pure _
    exact .bind (tracked_allocAll _) fun _ => .bind (tracked_putChunks _ _) fun _ => .lift _

/-- The halves of a split, written to the old page and a new one. -/
theorem tracked_halves {α : Type} (halves : Outcome StorageError α) (id : PageId)
    (left right : α → Node) (sep : α → Int64) :
    Tracked (do
      let parts ← Exec.lift halves
      let rightPage ← PageSink.allocPage
      writeNode id (left parts)
      writeNode rightPage (right parts)
      return some ⟨sep parts, rightPage⟩ : Exec (Audited σ) StorageError (Option Split)) :=
  .bind (.lift _) fun _ => .bind (.onSink _) fun _ => .bind (tracked_writeNode _ _) fun _ =>
    .bind (tracked_writeNode _ _) fun _ => .pure _

theorem tracked_storeLeaf (id : PageId) (leaf : LeafNode) :
    Tracked (storeLeaf id leaf : Exec (Audited σ) StorageError (Option Split)) := by
  unfold storeLeaf
  split
  · exact .bind (tracked_writeNode _ _) fun _ => .pure _
  · exact tracked_halves (splitLeaf leaf) id (fun parts => .leaf parts.1)
      (fun parts => .leaf parts.2.1) fun parts => parts.2.2

theorem tracked_storeInterior (id : PageId) (node : InteriorNode) :
    Tracked (storeInterior id node : Exec (Audited σ) StorageError (Option Split)) := by
  unfold storeInterior
  split
  · exact .bind (tracked_writeNode _ _) fun _ => .pure _
  · exact tracked_halves (splitInterior node) id (fun parts => .interior parts.1)
      (fun parts => .interior parts.2.1) fun parts => parts.2.2

theorem tracked_afterChild (id : PageId) (node : InteriorNode) (pos : Option Nat) (child : PageId)
    (split : Option Split) :
    Tracked (afterChild id node pos child split : Exec (Audited σ) StorageError (Option Split)) := by
  cases split with
  | none => exact .pure _
  | some split => exact .bind (.lift _) fun _ => tracked_storeInterior _ _

theorem tracked_insertRec (fuel : Nat) (id : PageId) (cell : LeafCell) :
    Tracked (insertRec fuel id cell : Exec (Audited σ) StorageError (Option Split)) := by
  induction fuel generalizing id with
  | zero => exact .outOfFuel
  | succ fuel ih =>
      refine .bind (tracked_getNode id) fun node => ?_
      cases node with
      | leaf leaf =>
          exact .bind (.lift _) fun _ => .bind (tracked_storeLeaf _ _) fun _ =>
            .bind (tracked_releaseChain _ _) fun _ => .pure _
      | interior node =>
          exact .bind (.lift _) fun _ => .bind (ih _) fun _ => tracked_afterChild _ _ _ _ _

theorem tracked_growRoot (root : PageId) (split : Split) :
    Tracked (growRoot root split : Exec (Audited σ) StorageError Unit) :=
  .bind (tracked_getNode root) fun _ => .bind (.onSink _) fun _ =>
    .bind (tracked_writeNode _ _) fun _ => tracked_writeNode _ _

theorem tracked_insert (fuel : Nat) (root : PageId) (rowid : Int64) (record : Record) :
    Tracked (insert fuel root rowid record : Exec (Audited σ) StorageError Unit) := by
  refine .bind (tracked_makeCell _ _) fun _ => .bind (tracked_insertRec _ _ _) fun split => ?_
  cases split with
  | none => exact .pure _
  | some split => exact tracked_growRoot root split

theorem tracked_delete (fuel : Nat) (id : PageId) (rowid : Int64) :
    Tracked (delete fuel id rowid : Exec (Audited σ) StorageError Bool) := by
  induction fuel generalizing id with
  | zero => exact .outOfFuel
  | succ fuel ih =>
      refine .bind (tracked_getNode id) fun node => ?_
      cases node with
      | interior n => exact ih _
      | leaf leaf =>
          cases search : leaf.search rowid with
          | ok i =>
              simp only [search]
              exact .bind (.lift _) fun _ => .bind (tracked_writeNode _ _) fun _ =>
                .bind (tracked_releaseChain _ _) fun _ => .pure _
          | error i =>
              simp only [search]
              exact .pure _

end BTree

end Squrust.Core
