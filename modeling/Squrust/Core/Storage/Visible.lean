import Squrust.Core.Storage.Session

/-!
# Which page a snapshot sees

The page a snapshot sees is its last version in the log the snapshot does not
precede, or else the page of the main file (`visible`). A lookup finds it, as
long as the cache mirrors the main file (`readPageAt_visible`).

A commit whose version is newer than all versions in the log leaves older
snapshots as they were and overrides its own pages in the newer ones
(`readPage_pushAll_of_lt`, `readPage_pushAll_of_le`).

Checkpoints rewrite the file header on page 1 without being asked to, so
contents are compared without it (`body`).
-/

set_option autoImplicit false

namespace Squrust.Core

open Squrust.Foundation

theorem body_writeInto (header : DbHeader) (page : PageData) :
    body 1 (header.writeInto page) = body 1 page := by
  rw [body, body, if_pos rfl, if_pos rfl, DbHeader.drop_writeInto]

namespace StorageEngine

/-- The page a snapshot sees. -/
def visible (index : PageIndex) (main : Bytes) (version : TransactionId) (id : PageId) :
    Option PageData :=
  match index.readPage id version with
  | some data => some data
  | none => pageAt main id

/-- The cached pages are pages of the main file. -/
def Mirrors (cache : PageCache) (main : Bytes) : Prop :=
  ∀ id page, cache.map.get? id = some page →
    page.id = id ∧ ∃ data, pageAt main id = some data ∧ body id page.data = body id data

/-! ## Lookups -/

variable {engine after : StorageEngine} {id : PageId} {version : TransactionId}

theorem Mirrors.insert {cache : PageCache} {main : Bytes} {data : PageData}
    (mirrors : Mirrors cache main) (here : pageAt main id = some data) :
    Mirrors (cache.insert ⟨id, data⟩) main := by
  intro other page cached
  rcases PageCache.lookup_insert cached with ⟨rfl, same⟩ | before
  · simp only at same
    subst same
    exact ⟨rfl, data, here, rfl⟩
  · exact mirrors other page before

/-- A lookup finds what the snapshot sees, and only the cache changes. -/
theorem readPageAt_visible {data : PageData} (mirrors : Mirrors engine.cache engine.disk.main)
    (sees : visible engine.wal.index engine.disk.main version id = some data) :
    ∃ page cache, readPageAt id version engine = .ok page { engine with cache } ∧
      page.id = id ∧ body id page.data = body id data ∧ Mirrors cache engine.disk.main := by
  unfold visible at sees
  unfold readPageAt
  cases logged : engine.wal.index.readPage id version with
  | some found =>
      rw [logged] at sees
      cases sees
      exact ⟨_, engine.cache, rfl, rfl, rfl, mirrors⟩
  | none =>
      simp only [logged] at sees ⊢
      unfold PageCache.get
      cases cached : engine.cache.map.get? id with
      | some page =>
          obtain ⟨named, held, inFile, same⟩ := mirrors id page cached
          rw [sees] at inFile
          cases inFile
          exact ⟨page, _, rfl, named, same, mirrors⟩
      | none =>
          simp only [sees]
          exact ⟨_, _, rfl, rfl, rfl, mirrors.insert sees⟩

/-- What no snapshot sees is out of range. -/
theorem readPageAt_missing (mirrors : Mirrors engine.cache engine.disk.main)
    (unseen : visible engine.wal.index engine.disk.main version id = none) :
    readPageAt id version engine = .error (.error (.pageOutOfRange id)) engine := by
  unfold visible at unseen
  unfold readPageAt
  cases logged : engine.wal.index.readPage id version with
  | some found =>
      rw [logged] at unseen
      cases unseen
  | none =>
      simp only [logged] at unseen ⊢
      unfold PageCache.get
      cases cached : engine.cache.map.get? id with
      | some page =>
          obtain ⟨-, held, inFile, -⟩ := mirrors id page cached
          rw [unseen] at inFile
          cases inFile
      | none => simp only [unseen]

end StorageEngine

/-! ## Commits in the index -/

namespace PageIndex

/-- No version of a page is newer. -/
def UpTo (index : PageIndex) (version : UInt64) : Prop :=
  ∀ id, ∀ entry ∈ index.versions id, entry.1 ≤ version

theorem UpTo.mono {index : PageIndex} {version version' : UInt64} (upTo : index.UpTo version)
    (newer : version ≤ version') : index.UpTo version' :=
  fun id entry among => (upTo id entry among).trans newer

theorem UpTo.pushAll {index : PageIndex} {version : UInt64} {frames : List WalFrame}
    (upTo : index.UpTo version) : (index.pushAll version frames).UpTo version := by
  intro id entry among
  rw [versions_pushAll, List.mem_append, List.mem_map] at among
  rcases among with old | ⟨frame, -, rfl⟩
  · exact upTo id entry old
  · exact le_rfl

variable {index : PageIndex} {version snapshot : UInt64} {frames : List WalFrame} {id : PageId}

/-- A snapshot that sees all versions sees the last one. -/
theorem readPage_of_upTo (upTo : index.UpTo version) :
    index.readPage id version = (index.versions id).getLast?.map Prod.snd := by
  unfold readPage
  have upTo' := upTo id
  rw [← List.head?_reverse]
  cases newest : (index.versions id).reverse with
  | nil => rfl
  | cons entry older =>
      have among : entry ∈ index.versions id := by
        rw [← List.mem_reverse, newest]
        exact List.mem_cons_self
      rw [List.find?_cons_of_pos (by simpa using upTo' entry among), List.head?_cons]

/-- Older snapshots see nothing of a commit. -/
theorem readPage_pushAll_of_lt (older : snapshot < version) :
    (index.pushAll version frames).readPage id snapshot = index.readPage id snapshot := by
  unfold readPage
  rw [versions_pushAll, List.reverse_append, List.find?_append]
  have unseen : (((frames.filter fun frame => frame.pageId = id).map
      fun frame => (version, frame.data)).reverse.find? fun entry => entry.1 ≤ snapshot) = none := by
    rw [List.find?_eq_none]
    intro entry among
    rw [List.mem_reverse, List.mem_map] at among
    obtain ⟨frame, -, rfl⟩ := among
    simpa using older
  rw [unseen, Option.none_or]

/-- Newer snapshots see the pages of the commit, and the other pages as before. -/
theorem readPage_pushAll_of_le (upTo : index.UpTo version) :
    (index.pushAll version frames).readPage id version =
      match (frames.filter fun frame => frame.pageId = id).getLast? with
      | some frame => some frame.data
      | none => index.readPage id version := by
  rw [readPage_of_upTo upTo.pushAll, readPage_of_upTo upTo, versions_pushAll, List.getLast?_append,
    List.getLast?_map]
  cases (frames.filter fun frame => frame.pageId = id).getLast? with
  | some frame => rfl
  | none => rfl

end PageIndex

end Squrust.Core
