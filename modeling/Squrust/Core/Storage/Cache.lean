import Squrust.Foundation.FiniteMap
import Squrust.Foundation.MachineIntegers
import Squrust.Core.Page

/-!
# The page cache

Clean pages of the main file, at most `capacity` of them; the least recently
used goes first. What a lookup relies on is only what may be in the cache: a
lookup adds nothing, an insert adds the page it is given, and a page that was
invalidated is gone (`PageCache.lookup_insert`, `PageCache.lookup_invalidate`).
-/

set_option autoImplicit false

namespace Squrust.Core

open Squrust.Foundation

/-- The cached pages, and their ids with the most recently used at the back. -/
structure PageCache where
  capacity : Nat
  map : FiniteMap PageId RawPage
  lru : List PageId

namespace PageCache

def new (capacity : Nat) : PageCache := ⟨max capacity 1, FiniteMap.empty, []⟩

def withDefaultCapacity : PageCache := new 2000

/-- Move an id to the back. -/
def touch (cache : PageCache) (id : PageId) : PageCache :=
  { cache with lru := cache.lru.erase id ++ [id] }

/-- The loop of `evict_if_needed`, from the front of the ids. -/
def evict (capacity : Nat) : List PageId → FiniteMap PageId RawPage → PageCache
  | [], map => ⟨capacity, map, []⟩
  | victim :: lru, map =>
      if capacity < map.size then evict capacity lru (map.erase victim)
      else ⟨capacity, map, victim :: lru⟩

def evictIfNeeded (cache : PageCache) : PageCache := evict cache.capacity cache.lru cache.map

/-- The page, if it is cached, and the cache after the lookup. -/
def get (cache : PageCache) (id : PageId) : Option RawPage × PageCache :=
  match cache.map.get? id with
  | some page => (some page, cache.touch id)
  | none => (none, cache)

def insert (cache : PageCache) (page : RawPage) : PageCache :=
  (touch { cache with map := cache.map.insert page.id page } page.id).evictIfNeeded

/-- Drop a page, for instance after it changed on disk. -/
def invalidate (cache : PageCache) (id : PageId) : PageCache :=
  { cache with map := cache.map.erase id, lru := cache.lru.erase id }

def clear (cache : PageCache) : PageCache := { cache with map := FiniteMap.empty, lru := [] }

def len (cache : PageCache) : Nat := cache.map.size

/-! ## What may be in the cache -/

variable {cache : PageCache} {id other : PageId} {page found : RawPage}

@[simp] theorem map_get : (cache.get id).2.map = cache.map := by
  unfold get
  split
  · rfl
  · rfl

theorem lookup_evict {capacity : Nat} {lru : List PageId} {map : FiniteMap PageId RawPage}
    (cached : (evict capacity lru map).map.get? other = some found) : map.get? other = some found := by
  induction lru generalizing map with
  | nil => exact cached
  | cons victim lru ih =>
      unfold evict at cached
      split at cached
      · have kept := ih cached
        rw [FiniteMap.get?_erase] at kept
        split at kept
        · cases kept
        · exact kept
      · exact cached

/-- An insert adds one page. -/
theorem lookup_insert (cached : (cache.insert page).map.get? other = some found) :
    found = page ∧ other = page.id ∨ cache.map.get? other = some found := by
  have kept := lookup_evict cached
  simp only [touch] at kept
  rw [FiniteMap.get?_insert] at kept
  split at kept
  · next same => exact Or.inl ⟨(Option.some.inj kept).symm, same⟩
  · exact Or.inr kept

/-- An invalidated page is gone. -/
theorem lookup_invalidate (cached : (cache.invalidate id).map.get? other = some found) :
    other ≠ id ∧ cache.map.get? other = some found := by
  simp only [invalidate] at cached
  rw [FiniteMap.get?_erase] at cached
  split at cached
  · cases cached
  · next different => exact ⟨different, cached⟩

end PageCache

end Squrust.Core
