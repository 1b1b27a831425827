import Squrust.Core.BTree.Walks
import Squrust.Core.BTree.Forest

/-!
# The pages of a tree and those of its sink

Pages are accounted for by a sink that notes which pages it gives out and which come
back (`Account`). Such a sink behaves like a map as long as the notes and the pages in use
agree, so what holds over every sink says that the notes agree after every call.

Together with what a walk of the tree finds, that is the invariant of the b-tree
(`tree_invariant`): the pages given out are its nodes, the overflow pages of its cells and
the pages that came back.
-/

set_option autoImplicit false

namespace Squrust.Core

open Squrust.Foundation

/-! ## Notes on pages -/

/-- A sink, the pages it gave out and the pages it got back since its start. -/
structure Account {σ : Type} (start : σ) where
  sink : σ
  allocated : List PageId
  freed : List PageId

namespace Account

variable {σ : Type} {start : σ}

/-- No notes yet. -/
def blank (start : σ) : Account start := ⟨start, [], []⟩

def onSink {α : Type} (code : Exec σ StorageError α) : Exec (Account start) StorageError α :=
  Exec.onPart sink (fun sink ledger => { ledger with sink }) code

def noteAllocated (id : PageId) : Exec (Account start) StorageError Unit := fun ledger =>
  .ok () { ledger with allocated := id :: ledger.allocated }

def noteFreed (id : PageId) : Exec (Account start) StorageError Unit := fun ledger =>
  .ok () { ledger with freed := id :: ledger.freed }

instance [PageSource σ] : PageSource (Account start) where
  getPage id := onSink (PageSource.getPage id)

instance [PageSink σ] : PageSink (Account start) where
  allocPage := do
    let id ← onSink PageSink.allocPage
    noteAllocated id
    return id
  putPage page := onSink (PageSink.putPage page)
  freePage id := do
    onSink (PageSink.freePage id)
    noteFreed id

theorem onSink_eq_ok {α : Type} {code : Exec σ StorageError α} {value : α}
    {ledger after : Account start} :
    onSink code ledger = .ok value after ↔
      ∃ sink, code ledger.sink = .ok value sink ∧ { ledger with sink } = after :=
  Exec.onPart_eq_ok

theorem allocPage_eq_ok [PageSink σ] {id : PageId} {ledger after : Account start} :
    PageSink.allocPage ledger = .ok id after ↔
      ∃ sink, PageSink.allocPage ledger.sink = .ok id sink ∧
        { ledger with sink, allocated := id :: ledger.allocated } = after := by
  change (onSink PageSink.allocPage >>= fun id => noteAllocated id >>= fun _ => pure id) ledger = _
    ↔ _
  rw [Exec.bind_eq_ok]
  constructor
  · rintro ⟨given, between, alloc, run⟩
    obtain ⟨sink, given', rfl⟩ := onSink_eq_ok.mp alloc
    obtain ⟨rfl, rfl⟩ := EStateM.Result.ok.inj run
    exact ⟨sink, given', rfl⟩
  · rintro ⟨sink, alloc, rfl⟩
    exact ⟨id, { ledger with sink }, onSink_eq_ok.mpr ⟨sink, alloc, rfl⟩, rfl⟩

theorem freePage_eq_ok [PageSink σ] {id : PageId} {ledger after : Account start} :
    PageSink.freePage id ledger = .ok () after ↔
      ∃ sink, PageSink.freePage id ledger.sink = .ok () sink ∧
        { ledger with sink, freed := id :: ledger.freed } = after := by
  change (onSink (PageSink.freePage id) >>= fun _ => noteFreed id) ledger = _ ↔ _
  rw [Exec.bind_eq_ok]
  constructor
  · rintro ⟨_, between, free, run⟩
    obtain ⟨sink, released, rfl⟩ := onSink_eq_ok.mp free
    obtain ⟨_, rfl⟩ := EStateM.Result.ok.inj run
    exact ⟨sink, released, rfl⟩
  · rintro ⟨sink, free, rfl⟩
    exact ⟨(), { ledger with sink }, onSink_eq_ok.mpr ⟨sink, free, rfl⟩, rfl⟩

section

variable [PageSink σ] [MapSink σ]

open Classical in
/-- How often a page is in use. -/
noncomputable def uses (pages : View PageId PageData) (id : PageId) : Nat :=
  if pages id = .free then 0 else 1

theorem uses_of_live {pages : View PageId PageData} {id : PageId} (live : pages id ≠ .free) :
    uses pages id = 1 := if_neg live

theorem uses_of_free {pages : View PageId PageData} {id : PageId} (free : pages id = .free) :
    uses pages id = 0 := if_pos free

theorem uses_congr {pages pages' : View PageId PageData} {id : PageId}
    (same : pages' id = pages id) : uses pages' id = uses pages id := by
  rw [uses, uses, same]

/-- Every page was given out as often as it came back and is in use. -/
def Balanced (ledger : Account start) : Prop :=
  ∀ id, uses (view start) id + ledger.allocated.count id =
    uses (view ledger.sink) id + ledger.freed.count id

open Classical in
/-- The pages in use, as long as the notes agree with them. -/
noncomputable def pages (ledger : Account start) : View PageId PageData := fun id =>
  if ledger.Balanced then view ledger.sink id else .free

theorem pages_of_balanced {ledger : Account start} (balanced : ledger.Balanced) :
    ledger.pages = view ledger.sink := by
  funext id
  exact if_pos balanced

theorem balanced_of_live {ledger : Account start} {id : PageId} (live : ledger.pages id ≠ .free) :
    ledger.Balanced := by
  by_contra unbalanced
  exact live (if_neg unbalanced)

/-- A call that changes neither notes nor which pages are in use keeps the balance. -/
theorem Balanced.of_uses {ledger : Account start} {sink : σ} (balanced : ledger.Balanced)
    (same : ∀ id, uses (view sink) id = uses (view ledger.sink) id) :
    ({ ledger with sink } : Account start).Balanced := fun id => by
  rw [same]
  exact balanced id

/-- A page that is given out comes into use. -/
theorem Balanced.taken {ledger : Account start} {sink : σ} {id : PageId} (balanced : ledger.Balanced)
    (free : view ledger.sink id = .free) (taken : view sink = (view ledger.sink).set id .reserved) :
    ({ ledger with sink, allocated := id :: ledger.allocated } : Account start).Balanced := fun other => by
  change uses (view start) other + (id :: ledger.allocated).count other =
    uses (view sink) other + ledger.freed.count other
  have before := balanced other
  by_cases same : other = id
  · subst same
    have used : uses (view sink) other = 1 :=
      uses_of_live (by rw [taken, View.set_self]; exact nofun)
    rw [uses_of_free free] at before
    rw [used, List.count_cons_self]
    omega
  · have unchanged : uses (view sink) other = uses (view ledger.sink) other :=
      uses_congr (by rw [taken, View.set_of_ne same])
    rw [unchanged, List.count_cons_of_ne (Ne.symm same)]
    exact before

/-- A page that comes back is out of use. -/
theorem Balanced.released {ledger : Account start} {sink : σ} {id : PageId} (balanced : ledger.Balanced)
    (live : view ledger.sink id ≠ .free) (released : view sink = (view ledger.sink).set id .free) :
    ({ ledger with sink, freed := id :: ledger.freed } : Account start).Balanced := fun other => by
  change uses (view start) other + ledger.allocated.count other =
    uses (view sink) other + (id :: ledger.freed).count other
  have before := balanced other
  by_cases same : other = id
  · subst same
    have unused : uses (view sink) other = 0 := uses_of_free (by rw [released, View.set_self])
    rw [uses_of_live live] at before
    rw [unused, List.count_cons_self]
    omega
  · have unchanged : uses (view sink) other = uses (view ledger.sink) other :=
      uses_congr (by rw [released, View.set_of_ne same])
    rw [unchanged, List.count_cons_of_ne (Ne.symm same)]
    exact before

noncomputable instance : MapSink (Account start) where
  view := pages
  getPage_held := by
    intro ledger id data held
    have balanced : ledger.Balanced := @balanced_of_live _ _ _ _ ledger id (by rw [held]; exact nofun)
    rw [pages_of_balanced balanced] at held
    obtain ⟨sink, run, same⟩ := MapSource.getPage_held held
    have balanced' : ({ ledger with sink } : Account start).Balanced :=
      balanced.of_uses fun id => uses_congr (congrFun same id)
    refine ⟨{ ledger with sink }, onSink_eq_ok.mpr ⟨sink, run, rfl⟩, ?_⟩
    rw [pages_of_balanced balanced, pages_of_balanced balanced']
    exact same
  allocPage_ok := by
    intro ledger after id used inUse run
    have balanced := balanced_of_live inUse
    rw [pages_of_balanced balanced] at inUse ⊢
    obtain ⟨sink, alloc, rfl⟩ := allocPage_eq_ok.mp run
    obtain ⟨real, free, taken⟩ := MapSink.allocPage_ok inUse alloc
    refine ⟨real, free, ?_⟩
    rw [pages_of_balanced (balanced.taken free taken)]
    exact taken
  putPage_ok := by
    intro ledger after page run inUse
    have balanced := balanced_of_live inUse
    rw [pages_of_balanced balanced] at inUse ⊢
    obtain ⟨sink, put, rfl⟩ := onSink_eq_ok.mp run
    have written := MapSink.putPage_ok put inUse
    rw [pages_of_balanced]
    · exact written
    · refine balanced.of_uses fun other => ?_
      by_cases same : other = page.id
      · subst same
        rw [uses_of_live inUse, uses_of_live (by rw [written, View.set_self]; exact nofun)]
      · exact uses_congr (by rw [written, View.set_of_ne same])
  freePage_ok := by
    intro ledger after id run inUse
    have balanced := balanced_of_live inUse
    rw [pages_of_balanced balanced] at inUse ⊢
    obtain ⟨sink, free, rfl⟩ := freePage_eq_ok.mp run
    have released := MapSink.freePage_ok free inUse
    rw [pages_of_balanced (balanced.released inUse released)]
    exact released

end

end Account

namespace BTree

section Runs

variable {σ : Type} [PageSink σ] [MapSink σ] {store after : Audited σ} {root : PageId}

/-- After a call there is a tree at the same root, and what it is made of was its own or free. -/
theorem call_owns {fuel : Nat} {entries : Rows} {pages : List PageId} {one : Call} {reply : Reply}
    (tree : Tree (view store) root entries pages) (run : call root fuel one store = .ok reply after)
    (fit : after.allFit = true) :
    ∃ entries' pages', Tree (view after) root entries' pages' ∧
      Replaces (view store) (view after) pages pages' := by
  cases one with
  | insert rowid record =>
      simp only [call, Exec.bind_eq_ok, Exec.pure_eq_ok] at run
      obtain ⟨_, between, inserted, rfl, rfl⟩ := run
      obtain ⟨pages', tree', replaces⟩ := insert_ok tree inserted fit
      exact ⟨_, pages', tree', replaces⟩
  | delete rowid =>
      simp only [call, Exec.bind_eq_ok, Exec.pure_eq_ok] at run
      obtain ⟨found, between, deleted, rfl, rfl⟩ := run
      obtain ⟨_, pages', tree', replaces⟩ := delete_ok tree deleted fit
      exact ⟨_, pages', tree', replaces⟩

/-- So it is after a sequence of calls. -/
theorem calls_own {steps : List (Call × Nat)} {entries : Rows} {pages : List PageId}
    {replies : List Reply} (tree : Tree (view store) root entries pages)
    (run : calls root steps store = .ok replies after) (fit : after.allFit = true) :
    ∃ entries' pages', Tree (view after) root entries' pages' ∧
      Replaces (view store) (view after) pages pages' := by
  induction steps generalizing store entries pages replies with
  | nil =>
      obtain ⟨rfl, rfl⟩ := Exec.pure_eq_ok.mp run
      exact ⟨entries, pages, tree, .refl tree.live⟩
  | cons step steps ih =>
      obtain ⟨one, fuel⟩ := step
      simp only [calls, Exec.bind_eq_ok, Exec.pure_eq_ok] at run
      obtain ⟨reply, between, first, others, _, rest, rfl, rfl⟩ := run
      obtain ⟨entries', pages', tree', replaces⟩ :=
        call_owns tree first (tracked_calls _ _ rest fit)
      obtain ⟨entries'', pages'', tree'', replaces'⟩ := ih tree' rest
      exact ⟨entries'', pages'', tree'', replaces.trans replaces'⟩

end Runs

/-- What a b-tree promises: its rows in order, its separators and its depth, and an account of
the pages given out. -/
structure Kept (pages : View PageId PageData) (root : PageId) (depth : Nat)
    (chains : List (List PageId)) (allocated freed : List PageId) : Prop where
  ascending : (rowidsIn pages depth root).Pairwise (· < ·)
  separated : Separated pages depth root
  level : Level pages depth root
  chained : List.Forall₂ (Chained pages) (cellsIn pages depth root) chains
  distinct : (nodesIn pages depth root ++ chains.flatten).Nodup
  accounted : allocated.Perm (nodesIn pages depth root ++ chains.flatten ++ freed)

/-- The pages in use that were not in use before were given out and did not come back. -/
theorem allocated_perm {σ : Type} [PageSink σ] [MapSink σ] {start : σ} {ledger : Account start}
    {pages : List PageId} (balanced : ledger.Balanced)
    (replaces : Replaces (view start) (view ledger.sink) [] pages) (distinct : pages.Nodup) :
    ledger.allocated.Perm (pages ++ ledger.freed) := by
  rw [List.perm_iff_count]
  intro id
  have balance := balanced id
  rw [List.count_append]
  by_cases owned : id ∈ pages
  · rw [Account.uses_of_free (replaces.fresh id owned List.not_mem_nil),
      Account.uses_of_live (replaces.held id owned)] at balance
    rw [List.Nodup.count distinct, if_pos owned]
    omega
  · rw [Account.uses_congr (replaces.others id List.not_mem_nil owned)] at balance
    rw [List.count_eq_zero_of_not_mem owned]
    omega

/-- **The invariant of the b-tree.** A tree is created on a sink in order, and calls on it all
return and write only nodes that fit their pages. Then at the same root the rowids ascend from
leaf to leaf, every separator is at least the keys to its left and less than those to its
right, and all leaves are at one depth. The pages that the sink gave out, counted as often as it
gave them out, are the nodes and the pages of the cells' overflow chains, each once, and the
pages that came back. -/
theorem tree_invariant {σ : Type} [PageSink σ] [MapSink σ] {start : σ} {used root : PageId}
    {created after : Audited (Account start)} {steps : List (Call × Nat)} {replies : List Reply}
    (inUse : view start used ≠ .free)
    (creation : create (⟨Account.blank start, true⟩ : Audited (Account start)) = .ok root created)
    (run : calls root steps created = .ok replies after) (fit : after.allFit = true) :
    ∃ depth chains, Kept (view after.sink.sink) root depth chains after.sink.allocated
      after.sink.freed := by
  have opened : (Account.blank start).Balanced := fun id => rfl
  have viewOpen : view (⟨Account.blank start, true⟩ : Audited (Account start)) = view start :=
    Account.pages_of_balanced opened
  obtain ⟨empty, planted⟩ := create_replaces (by rwa [viewOpen] : view _ used ≠ .free) creation
    (tracked_calls _ _ run fit)
  obtain ⟨entries, pages, tree, grown⟩ := calls_own empty run fit
  have replaces := planted.trans grown
  have balanced : after.sink.Balanced := Account.balanced_of_live tree.root_live
  have viewAfter : view after = view after.sink.sink := Account.pages_of_balanced balanced
  rw [viewAfter] at tree replaces
  rw [viewOpen] at replaces
  obtain ⟨depth, subtree, distinct⟩ := tree
  obtain ⟨chains, chained, owned⟩ := subtree.chains
  refine ⟨depth, chains, ?_, subtree.separated, subtree.level, chained, owned.nodup_iff.mpr distinct,
    ?_⟩
  · rw [subtree.rowidsIn_eq, List.pairwise_map]
    exact (Subtree.ranged _ depth).ascending subtree
  · exact (allocated_perm balanced replaces distinct).trans (owned.symm.append_right _)

theorem tree_invariant_fourCalls : ∃ root depth chains, ∃ after : Audited (Account MemStore.new),
    Kept (view after.sink.sink) root depth chains after.sink.allocated after.sink.freed := by
  obtain ⟨root, created, replies, after, creation, run, fit⟩ :=
    exists_of_staysWithin (by decide +kernel : staysWithin (Account.blank MemStore.new) fourCalls)
  obtain ⟨depth, chains, kept⟩ := tree_invariant MemStore.new_inUse creation run fit
  exact ⟨root, depth, chains, after, kept⟩

end BTree

end Squrust.Core
