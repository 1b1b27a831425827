import Squrust.Core.Storage.Cache
import Squrust.Foundation.Recency

/-!
# The page cache keeps the most recent pages

The cache has the ids of its pages twice: as the keys of its map, and in the list of ids
that has the least recently used at the front. Every call keeps these in step and does
what a map does that forgets the key that was used least recently (`call_step`), and so
does every run of calls on a new cache (`recentPages_of_run`).
-/

set_option autoImplicit false

namespace Squrust.Core

open Squrust.Foundation

namespace PageCache

/-- The calls of the cache. -/
inductive Call where
  | insert (page : RawPage)
  | get (id : PageId)
  | invalidate (id : PageId)
  | clear

/-- A page is put in under its id. -/
def Call.keyed : Call → Recent.Call PageId RawPage
  | .insert page => .insert page.id page
  | .get id => .get id
  | .invalidate id => .invalidate id
  | .clear => .clear

/-- A call, what it answers, and the cache afterwards. -/
def call (cache : PageCache) : Call → Option RawPage × PageCache
  | .insert page => (none, cache.insert page)
  | .get id => cache.get id
  | .invalidate id => (none, cache.invalidate id)
  | .clear => (none, cache.clear)

/-- Calls one after the other, and their answers. -/
def run : PageCache → List Call → List (Option RawPage) × PageCache
  | cache, [] => ([], cache)
  | cache, one :: calls =>
      let (answer, cache) := cache.call one
      let (answers, cache) := run cache calls
      (answer :: answers, cache)

/-- The cache holds these pages, its ids are in the order in which they were used, and there are
no more than it has room for. -/
structure Holds (cache : PageCache) (capacity : Nat) (s : Recent PageId RawPage) : Prop where
  capacity_eq : cache.capacity = capacity
  value : ∀ id, cache.map.get? id = s.value id
  queue : s.Queue cache.lru
  room : cache.lru.length ≤ capacity

variable {cache : PageCache} {capacity : Nat} {s : Recent PageId RawPage}

/-- The map has as many pages as there are ids. -/
theorem size_eq {map : FiniteMap PageId RawPage} {lru : List PageId}
    (value : ∀ id, map.get? id = s.value id) (queue : s.Queue lru) : map.size = lru.length := by
  have keys : (map.entries.map Prod.fst).Nodup := by
    rw [List.nodup_iff_pairwise_ne, List.pairwise_map]
    exact map.ascending.imp fun {_ _} less => less.ne
  have perm : (map.entries.map Prod.fst).Perm lru := by
    rw [List.perm_ext_iff_of_nodup keys queue.nodup]
    intro id
    rw [queue.mem_iff, List.mem_map]
    change _ ↔ s.value id ≠ none
    rw [← value, Option.ne_none_iff_exists']
    constructor
    · rintro ⟨⟨_, page⟩, member, rfl⟩
      exact ⟨page, FiniteMap.get?_eq_some_iff.mpr member⟩
    · rintro ⟨page, found⟩
      exact ⟨(id, page), FiniteMap.get?_eq_some_iff.mp found, rfl⟩
  rw [FiniteMap.size, ← perm.length_eq, List.length_map]

theorem value_erase {map : FiniteMap PageId RawPage} (value : ∀ id, map.get? id = s.value id) (victim : PageId) :
    ∀ id, (map.erase victim).get? id = (s.drop victim).value id := by
  intro id
  change _ = Function.update s.value victim none id
  rw [FiniteMap.get?_erase, Function.update_apply, value]

/-- At most one page too many goes, the one that was used least recently. -/
theorem evict_evicts {map : FiniteMap PageId RawPage} {lru : List PageId}
    (value : ∀ id, map.get? id = s.value id) (queue : s.Queue lru) (few : lru.length ≤ capacity + 1)
    (positive : 1 ≤ capacity) :
    ∃ after, Recent.Evicts capacity s after ∧ (evict capacity lru map).Holds capacity after := by
  have size := size_eq value queue
  have fits : lru.length ≤ capacity → evict capacity lru map = ⟨capacity, map, lru⟩ := by
    intro room
    cases lru with
    | nil => rfl
    | cons victim rest => rw [evict, if_neg (by omega)]
  by_cases room : lru.length ≤ capacity
  · refine ⟨s, .fits (by rwa [queue.ncard_keys]), ?_⟩
    rw [fits room]
    exact ⟨rfl, value, queue, room⟩
  · cases lru with
    | nil => simp at room
    | cons victim rest =>
        have dropped := queue.drop victim
        rw [List.erase_cons_head] at dropped
        have value' := value_erase value victim
        have size' := size_eq value' dropped
        rw [List.length_cons] at few room size
        refine ⟨s.drop victim, .full (by rw [queue.ncard_keys, List.length_cons]; omega)
          ((queue.mem_iff victim).mp List.mem_cons_self) queue.oldest, ?_⟩
        have stays : evict capacity rest (map.erase victim) = ⟨capacity, map.erase victim, rest⟩ := by
          cases rest with
          | nil => rfl
          | cons next rest => rw [evict, if_neg (by omega)]
        rw [evict, if_pos (by omega), stays]
        exact ⟨rfl, value', dropped, Nat.le_of_succ_le_succ few⟩

/-- **One call** answers what the map of the most recent pages answers, and holds what it holds. -/
theorem call_step (holds : cache.Holds capacity s) (positive : 1 ≤ capacity) (one : Call) :
    ∃ after, Recent.Step capacity s one.keyed (cache.call one).1 after ∧
      (cache.call one).2.Holds capacity after := by
  obtain ⟨rfl, value, queue, room⟩ := holds
  cases one with
  | insert page =>
      have value' : ∀ id, (cache.map.insert page.id page).get? id = (s.put page.id page).value id := by
        intro id
        change _ = Function.update s.value page.id (some page) id
        rw [FiniteMap.get?_insert, Function.update_apply, value]
      have few : (cache.lru.erase page.id ++ [page.id]).length ≤ cache.capacity + 1 := by
        have := @List.length_erase_le _ _ page.id cache.lru
        rw [List.length_append, List.length_singleton]
        omega
      obtain ⟨after, evicts, held⟩ := evict_evicts value' (queue.put page.id page) few positive
      exact ⟨after, .insert evicts, held⟩
  | get id =>
      rw [call, get]
      cases found : cache.map.get? id with
      | none =>
          have missing : s.value id = none := by rw [← value, found]
          exact ⟨s, .miss missing, rfl, value, queue, room⟩
      | some page =>
          have held : s.value id = some page := by rw [← value, found]
          have among : id ∈ s.keys := by
            change s.value id ≠ none
            rw [held]
            exact Option.some_ne_none page
          refine ⟨s.use id, .hit held, rfl, value, queue.use among, ?_⟩
          have := List.length_erase_of_mem ((queue.mem_iff id).mpr among)
          have := List.length_pos_of_mem ((queue.mem_iff id).mpr among)
          simp only [touch, List.length_append, List.length_singleton]
          omega
  | invalidate id =>
      exact ⟨s.drop id, .invalidate s id, rfl, value_erase value id, queue.drop id,
        List.length_erase_le.trans room⟩
  | clear => exact ⟨s.cleared, .clear s, rfl, fun _ => rfl, Recent.queue_cleared s, Nat.zero_le _⟩

theorem run_holds (holds : cache.Holds capacity s) (positive : 1 ≤ capacity) (calls : List Call) :
    ∃ after, Recent.Run capacity s (calls.map Call.keyed) (cache.run calls).1 after ∧
      (cache.run calls).2.Holds capacity after := by
  induction calls generalizing cache s with
  | nil => exact ⟨s, .nil s, holds⟩
  | cons one calls ih =>
      obtain ⟨between, step, holds'⟩ := call_step holds positive one
      obtain ⟨after, rest, held⟩ := ih holds'
      exact ⟨after, .cons step rest, held⟩

/-- **The cache keeps the most recent pages.** After any calls on a new cache, the ids in the list
are those of the pages in the map, each once and no more than there is room for; the calls
answered what a map answers that forgets the page whose last insert or lookup is the oldest when
there is one page too many; and the cache holds the pages of that map. -/
theorem recentPages_of_run (capacity : Nat) (positive : 1 ≤ capacity) (calls : List Call) :
    (((new capacity).run calls).2.lru.Nodup ∧
      (∀ id, id ∈ ((new capacity).run calls).2.lru ↔
        (((new capacity).run calls).2.map.get? id).isSome = true) ∧
      ((new capacity).run calls).2.len = ((new capacity).run calls).2.lru.length ∧
      ((new capacity).run calls).2.len ≤ capacity) ∧
    ∃ after, Recent.Run capacity .empty (calls.map Call.keyed) ((new capacity).run calls).1 after ∧
      (∀ id, ((new capacity).run calls).2.map.get? id = after.value id) ∧
      after.Queue ((new capacity).run calls).2.lru := by
  have start : (new capacity).Holds capacity .empty :=
    ⟨max_eq_left positive, fun _ => rfl, Recent.queue_empty, Nat.zero_le _⟩
  obtain ⟨after, ran, _, value, queue, room⟩ := run_holds start positive calls
  refine ⟨⟨queue.nodup, fun id => ?_, size_eq value queue, (size_eq value queue).trans_le room⟩,
    after, ran, value, queue⟩
  rw [queue.mem_iff, value, Option.isSome_iff_ne_none]
  rfl

/-- Three pages in a cache for two, the first of them looked up before the third comes. -/
theorem recentPages_of_run_three : ((new 2).run [.insert (.new 1), .insert (.new 2), .get 1, .insert (.new 3)]).2.len ≤ 2 :=
  (recentPages_of_run 2 (by decide) _).1.2.2.2

end PageCache

end Squrust.Core
