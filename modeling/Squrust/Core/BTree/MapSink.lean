import Squrust.Core.BTree.NodeCodec
import Squrust.Core.BTree.Audit
import Squrust.Foundation.Ownership

/-!
# Sinks that behave like a map

What the tree relies on: a page that holds a content can be read and is what was
put last; a page given out was not in use, and is not page 0, which stands for
no page. Nothing is asked of a call that fails, and nothing of a store that has
no page in use: that is the view of a store that is not in order.

Over such a sink the tree's own two accesses have one rule each: reading a node
(`getNode_ok`), and writing one that fits its page (`writeNode_ok`).
-/

set_option autoImplicit false

namespace Squrust.Core

open Squrust.Foundation

/-- A source whose held pages can be read. -/
class MapSource (σ : Type) [PageSource σ] where
  view : σ → View PageId PageData
  getPage_held : ∀ {store : σ} {id : PageId} {data : PageData}, view store id = .holds data →
    ∃ after, PageSource.getPage id store = .ok ⟨id, data⟩ after ∧ view after = view store

/-- A sink that behaves like a map from page ids to contents. -/
class MapSink (σ : Type) [PageSink σ] extends MapSource σ where
  allocPage_ok : ∀ {store after : σ} {id used : PageId}, view store used ≠ .free →
    PageSink.allocPage store = .ok id after →
      id ≠ 0 ∧ view store id = .free ∧ view after = (view store).set id .reserved
  putPage_ok : ∀ {store after : σ} {page : RawPage},
    PageSink.putPage page store = .ok () after → view store page.id ≠ .free →
      view after = (view store).set page.id (.holds page.data)
  freePage_ok : ∀ {store after : σ} {id : PageId},
    PageSink.freePage id store = .ok () after → view store id ≠ .free →
      view after = (view store).set id .free

export MapSource (view)

namespace Audited

variable {σ : Type}

instance [PageSource σ] [MapSource σ] : MapSource (Audited σ) where
  view audited := view audited.sink
  getPage_held := by
    intro audited id data held
    obtain ⟨sink, run, same⟩ := MapSource.getPage_held held
    exact ⟨⟨sink, audited.allFit⟩, onSink_eq_ok.mpr ⟨run, rfl⟩, same⟩

instance [PageSink σ] [MapSink σ] : MapSink (Audited σ) where
  allocPage_ok inUse run := MapSink.allocPage_ok inUse (onSink_eq_ok.mp run).1
  putPage_ok run := MapSink.putPage_ok (onSink_eq_ok.mp run).1
  freePage_ok run := MapSink.freePage_ok (onSink_eq_ok.mp run).1

end Audited

/-- A page holds a node, and the node fits it. -/
def Holds (view : View PageId PageData) (id : PageId) (node : Node) : Prop :=
  ∃ data, view id = .holds data ∧ Node.parse ⟨id, data⟩ = .ok node ∧ node.fits id = true

theorem Holds.live {view : View PageId PageData} {id : PageId} {node : Node}
    (holds : Holds view id node) : view id ≠ .free := by
  obtain ⟨data, held, _⟩ := holds
  simp [held]

theorem Holds.fits {view : View PageId PageData} {id : PageId} {node : Node}
    (holds : Holds view id node) : node.fits id = true := by
  obtain ⟨_, _, _, fits⟩ := holds
  exact fits

/-- A page holds one node. -/
theorem Holds.unique {view : View PageId PageData} {id : PageId} {first second : Node}
    (holds : Holds view id first) (holds' : Holds view id second) : first = second := by
  obtain ⟨data, held, parsed, _⟩ := holds
  obtain ⟨data', held', parsed', _⟩ := holds'
  rw [held] at held'
  obtain rfl := Slot.holds.inj held'
  exact Except.ok.inj (parsed.symm.trans parsed')

theorem Holds.congr {view view' : View PageId PageData} {id : PageId} {node : Node}
    (holds : Holds view id node) (same : view' id = view id) : Holds view' id node := by
  obtain ⟨data, held, parsed, fits⟩ := holds
  exact ⟨data, same.trans held, parsed, fits⟩

namespace BTree

section Reading

variable {σ : Type} [PageSource σ] [MapSource σ] {store after : σ} {id : PageId}

theorem getPage_ok {data : PageData} {page : RawPage} (held : view store id = .holds data)
    (run : (PageSource.getPage id : Exec σ StorageError RawPage) store = .ok page after) :
    page = ⟨id, data⟩ ∧ view after = view store := by
  obtain ⟨after', run', same⟩ := MapSource.getPage_held held
  rw [run'] at run
  obtain ⟨rfl, rfl⟩ := EStateM.Result.ok.inj run
  exact ⟨rfl, same⟩

/-- A held node is read, and reading leaves the pages as they are. -/
theorem getNode_held {node : Node} (holds : Holds (view store) id node) :
    ∃ after, (getNode id : Exec σ StorageError Node) store = .ok node after ∧
      view after = view store := by
  obtain ⟨data, held, parsed, _⟩ := holds
  obtain ⟨after, run, same⟩ := MapSource.getPage_held held
  refine ⟨after, ?_, same⟩
  rw [getNode, Exec.bind_of_ok run, Exec.lift_eq_ok]
  exact ⟨parsed, rfl⟩

theorem getNode_ok {node got : Node} (holds : Holds (view store) id node)
    (run : (getNode id : Exec σ StorageError Node) store = .ok got after) :
    got = node ∧ view after = view store := by
  obtain ⟨after', run', same⟩ := getNode_held holds
  rw [run'] at run
  obtain ⟨rfl, rfl⟩ := EStateM.Result.ok.inj run
  exact ⟨rfl, same⟩

end Reading

section Writing

variable {σ : Type} [PageSink σ] [MapSink σ] {store after : Audited σ} {id : PageId}

/-- A written node that fits is held by its page; the other pages stay. -/
theorem writeNode_ok {node : Node} (shaped : node.Shaped) (live : view store id ≠ .free)
    (run : writeNode id node store = .ok () after) (fit : after.allFit = true) :
    ∃ data, view after = (view store).set id (.holds data) ∧
      Node.parse ⟨id, data⟩ = .ok node ∧ node.fits id = true := by
  simp only [writeNode, Exec.bind_eq_ok] at run
  obtain ⟨_, noted, note, page, serialized, lifted, put⟩ := run
  obtain ⟨wrote, rfl⟩ := Exec.lift_eq_ok.mp lifted
  have fitNoted := Audited.Tracked.onSink _ put fit
  rw [Audited.note_eq_ok] at note
  subst note
  have fits : node.fits (RawPage.new id).id = true := (Bool.and_eq_true _ _ ▸ fitNoted).2
  obtain ⟨written, wrote', parsed⟩ := Node.parse_serializeInto fits shaped
  rw [wrote'] at wrote
  obtain rfl := Except.ok.inj wrote
  exact ⟨written, MapSink.putPage_ok put live, parsed, fits⟩

end Writing

end BTree

end Squrust.Core
