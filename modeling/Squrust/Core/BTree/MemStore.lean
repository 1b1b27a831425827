import Squrust.Core.BTree.MapSink

/-!
# A store in memory

The store on which the tree's own tests run: a table of pages, the next page to
give out, and the pages that were given back, the last one first. As long as it
is in order it behaves like a map (`MemStore.instMapSink`).
-/

set_option autoImplicit false

namespace Squrust.Core

open Squrust.Foundation

/-- The store of the tree's own tests: the pages that were put, the next page to
give out, and the pages that were given back. -/
structure MemStore where
  pages : PageId → Option RawPage
  next : PageId
  free : List PageId

namespace MemStore

def new : MemStore := ⟨fun _ => none, 2, []⟩

def getPage (id : PageId) : Exec MemStore StorageError RawPage := fun store =>
  match store.pages id with
  | some page => .ok page store
  | none => .error (.error (.pageOutOfRange id)) store

def allocPage : Exec MemStore StorageError PageId := fun store =>
  match store.free with
  | id :: free => .ok id { store with free }
  | [] =>
      if store.next.toNat + 1 < 2 ^ 32 then .ok store.next { store with next := store.next + 1 }
      else .error (.panic "attempt to add with overflow") store

def putPage (page : RawPage) : Exec MemStore StorageError Unit := fun store =>
  .ok () { store with pages := fun id => if id = page.id then some page else store.pages id }

def freePage (id : PageId) : Exec MemStore StorageError Unit := fun store =>
  .ok () { store with
    pages := fun other => if other = id then none else store.pages other
    free := id :: store.free }

instance : PageSink MemStore where
  getPage := getPage
  allocPage := allocPage
  putPage := putPage
  freePage := freePage

/-- Pages given back are given out once, and hold nothing until then. -/
structure InOrder (store : MemStore) : Prop where
  distinct : store.free.Nodup
  given : ∀ id ∈ store.free, id ≠ 0 ∧ id < store.next ∧ store.pages id = none
  unused : ∀ id, store.next ≤ id → store.pages id = none
  named : ∀ id page, store.pages id = some page → page.id = id
  next : 2 ≤ store.next

open Classical in
/-- The pages of a store in order. -/
noncomputable def slots (store : MemStore) : View PageId PageData := fun id =>
  if store.InOrder ∧ id ≠ 0 ∧ id ∉ store.free ∧ id < store.next then
    match store.pages id with
    | some page => .holds page.data
    | none => .reserved
  else .free

theorem slots_ne_free {store : MemStore} {id : PageId} :
    store.slots id ≠ .free ↔ store.InOrder ∧ id ≠ 0 ∧ id ∉ store.free ∧ id < store.next := by
  unfold slots
  split
  · next inUse =>
    refine iff_of_true ?_ inUse
    split <;> simp
  · next unused => exact iff_of_false (by simp) unused

theorem slots_eq_holds {store : MemStore} {id : PageId} {data : PageData}
    (held : store.slots id = .holds data) :
    store.InOrder ∧ ∃ page, store.pages id = some page ∧ page.data = data := by
  have inUse := slots_ne_free.mp (show store.slots id ≠ .free by simp [held])
  unfold slots at held
  rw [if_pos inUse] at held
  cases found : store.pages id with
  | none => simp [found] at held
  | some page =>
      simp only [found, Slot.holds.injEq] at held
      exact ⟨inUse.1, page, rfl, held⟩

/-- Slots of stores in order, seen one by one. -/
theorem slots_set {store after : MemStore} {id : PageId} {slot : Slot PageData}
    (inOrder : store.InOrder) (inOrder' : after.InOrder) (here : after.slots id = slot)
    (others : ∀ other, other ≠ id → after.pages other = store.pages other ∧
      (other ≠ 0 ∧ other ∉ after.free ∧ other < after.next ↔
        other ≠ 0 ∧ other ∉ store.free ∧ other < store.next)) :
    after.slots = store.slots.set id slot := by
  funext other
  by_cases same : other = id
  · rw [same, View.set_self, here]
  · obtain ⟨page, used⟩ := others other same
    rw [View.set_of_ne same]
    simp only [slots, inOrder, inOrder', true_and, page, used]

noncomputable instance instMapSink : MapSink MemStore where
  view := slots
  getPage_held := by
    intro store id data held
    obtain ⟨inOrder, page, found, rfl⟩ := slots_eq_holds held
    refine ⟨store, ?_, rfl⟩
    have named := inOrder.named id page found
    change getPage id store = _
    rw [getPage, found, ← named]
  allocPage_ok := by
    intro store after id used inUse run
    obtain ⟨inOrder, _⟩ := slots_ne_free.mp inUse
    change allocPage store = _ at run
    unfold allocPage at run
    split at run
    · next given rest free =>
      obtain ⟨rfl, rfl⟩ := EStateM.Result.ok.inj run
      obtain ⟨real, below, empty⟩ := inOrder.given given (by simp [free])
      obtain ⟨absent, distinct⟩ := List.nodup_cons.mp (free ▸ inOrder.distinct)
      have inOrder' : InOrder { store with free := rest } :=
        ⟨distinct, fun id member => inOrder.given id (by simp [free, member]), inOrder.unused,
          inOrder.named, inOrder.next⟩
      refine ⟨real, ?_, slots_set inOrder inOrder' ?_ ?_⟩
      · simp [slots, free]
      · simp [slots, inOrder', real, absent, below, empty]
      · intro other different
        simp [free, different]
    · next free =>
      split at run
      · next room =>
        obtain ⟨rfl, rfl⟩ := EStateM.Result.ok.inj run
        have grown : (store.next + 1).toNat = store.next.toNat + 1 := by
          rw [UInt32.toNat_add]
          exact Nat.mod_eq_of_lt room
        have next := UInt32.le_iff_toNat_le.mp inOrder.next
        have positive : store.next ≠ 0 := fun zero => by simp [zero] at next
        have inOrder' : InOrder { store with next := store.next + 1 } := by
          refine ⟨inOrder.distinct, by simp [free], fun id unused => inOrder.unused id ?_,
            inOrder.named, ?_⟩
          · rw [UInt32.le_iff_toNat_le] at unused ⊢
            simp only [grown] at unused
            omega
          · rw [UInt32.le_iff_toNat_le, grown]
            exact next.trans (Nat.le_succ _)
        refine ⟨positive, ?_, slots_set inOrder inOrder' ?_ ?_⟩
        · simp [slots]
        · have below : store.next < store.next + 1 := by
            rw [UInt32.lt_iff_toNat_lt, grown]
            exact Nat.lt_succ_self _
          have empty := inOrder.unused store.next UInt32.le_rfl
          rw [slots, if_pos ⟨inOrder', positive, by simp [free], below⟩]
          simp only [empty]
        · intro other different
          have other_ne : other.toNat ≠ store.next.toNat := fun same =>
            different (UInt32.toNat_inj.mp same)
          have step : other < store.next + 1 ↔ other < store.next := by
            rw [UInt32.lt_iff_toNat_lt, UInt32.lt_iff_toNat_lt, grown]
            omega
          exact ⟨rfl, and_congr_right fun _ => and_congr_right fun _ => step⟩
      · cases run
  putPage_ok := by
    intro store after page run inUse
    obtain ⟨inOrder, real, absent, below⟩ := slots_ne_free.mp inUse
    obtain ⟨_, rfl⟩ := EStateM.Result.ok.inj run
    have inOrder' : InOrder { store with
        pages := fun id => if id = page.id then some page else store.pages id } := by
      refine ⟨inOrder.distinct, fun id member => ?_, fun id unused => ?_, fun id held found => ?_,
        inOrder.next⟩
      · obtain ⟨idReal, idBelow, empty⟩ := inOrder.given id member
        have different : id ≠ page.id := ne_of_mem_of_not_mem member absent
        exact ⟨idReal, idBelow, by simp [different, empty]⟩
      · have different : id ≠ page.id := fun same => by
          rw [same] at unused
          exact absurd below (UInt32.not_lt.mpr unused)
        simp [different, inOrder.unused id unused]
      · by_cases same : id = page.id
        · simp only [same, if_true, Option.some.injEq] at found
          rw [← found, same]
        · simp only [same, if_false] at found
          exact inOrder.named id held found
    refine slots_set inOrder inOrder' ?_ ?_
    · simp [slots, inOrder', real, absent, below]
    · intro other different
      simp [different]
  freePage_ok := by
    intro store after id run inUse
    obtain ⟨inOrder, real, absent, below⟩ := slots_ne_free.mp inUse
    obtain ⟨_, rfl⟩ := EStateM.Result.ok.inj run
    have inOrder' : InOrder { store with
        pages := fun other => if other = id then none else store.pages other
        free := id :: store.free } := by
      refine ⟨List.nodup_cons.mpr ⟨absent, inOrder.distinct⟩, fun other member => ?_,
        fun other unused => ?_, fun other held found => ?_, inOrder.next⟩
      · rcases List.mem_cons.mp member with rfl | member
        · exact ⟨real, below, by simp⟩
        · obtain ⟨otherReal, otherBelow, empty⟩ := inOrder.given other member
          exact ⟨otherReal, otherBelow, by simp [empty]⟩
      · simp [inOrder.unused other unused]
      · by_cases same : other = id
        · simp [same] at found
        · simp only [same, if_false] at found
          exact inOrder.named other held found
    refine slots_set inOrder inOrder' ?_ ?_
    · simp [slots]
    · intro other different
      simp [different]

/-- Page 1 of a new store is in use: the header is there. -/
theorem new_inUse : view new 1 ≠ .free := by
  refine slots_ne_free.mpr ⟨⟨List.nodup_nil, by simp [new], by simp [new], by simp [new], ?_⟩, ?_⟩
  · exact UInt32.le_rfl
  · simp [new]

end MemStore

end Squrust.Core
