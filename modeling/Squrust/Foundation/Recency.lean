import Mathlib.Data.List.Nodup
import Mathlib.Data.Set.Card
import Mathlib.Tactic.Common

/-!
# Keeping the most recent entries

A map with room for some number of keys, which forgets the key that was used least
recently when a further one is put into it (`Recent.Step`). It knows for every key when
it was last used.

A queue of the keys is in the order in which they were used (`Recent.Queue`). To use a
key is to move it to the back, and the key at the front is the one to forget
(`Queue.use`, `Queue.oldest`).
-/

set_option autoImplicit false

namespace Squrust.Foundation

variable {K V : Type}

/-- The values of the keys that are held, and when each key was last used. -/
structure Recent (K V : Type) where
  value : K → Option V
  lastUsed : K → Nat
  now : Nat

namespace Recent

inductive Call (K V : Type) where
  | insert (key : K) (value : V)
  | get (key : K)
  | invalidate (key : K)
  | clear

def empty : Recent K V := ⟨fun _ => none, fun _ => 0, 0⟩

def keys (s : Recent K V) : Set K := {key | s.value key ≠ none}

def cleared (s : Recent K V) : Recent K V := { s with value := fun _ => none }

section

variable [DecidableEq K]

/-- The key is used now. -/
def use (s : Recent K V) (key : K) : Recent K V :=
  { s with lastUsed := Function.update s.lastUsed key s.now, now := s.now + 1 }

def put (s : Recent K V) (key : K) (value : V) : Recent K V :=
  ({ s with value := Function.update s.value key (some value) }).use key

def drop (s : Recent K V) (key : K) : Recent K V :=
  { s with value := Function.update s.value key none }

/-- When there are more keys than there is room for, the one that was used least recently goes. -/
inductive Evicts (capacity : Nat) (s : Recent K V) : Recent K V → Prop
  | fits (room : s.keys.ncard ≤ capacity) : Evicts capacity s s
  | full {victim : K} (more : capacity < s.keys.ncard) (held : victim ∈ s.keys)
      (oldest : ∀ key ∈ s.keys, s.lastUsed victim ≤ s.lastUsed key) :
      Evicts capacity s (s.drop victim)

/-- A call, what it answers, and what is held afterwards. -/
inductive Step (capacity : Nat) : Recent K V → Call K V → Option V → Recent K V → Prop
  | insert {s after : Recent K V} {key : K} {value : V} (evicts : Evicts capacity (s.put key value) after) :
      Step capacity s (.insert key value) none after
  | hit {s : Recent K V} {key : K} {value : V} (held : s.value key = some value) :
      Step capacity s (.get key) (some value) (s.use key)
  | miss {s : Recent K V} {key : K} (missing : s.value key = none) : Step capacity s (.get key) none s
  | invalidate (s : Recent K V) (key : K) : Step capacity s (.invalidate key) none (s.drop key)
  | clear (s : Recent K V) : Step capacity s .clear none s.cleared

/-- Calls one after the other, and their answers. -/
inductive Run (capacity : Nat) : Recent K V → List (Call K V) → List (Option V) → Recent K V → Prop
  | nil (s : Recent K V) : Run capacity s [] [] s
  | cons {s between after : Recent K V} {call : Call K V} {answer : Option V} {calls : List (Call K V)}
      {answers : List (Option V)} (step : Step capacity s call answer between)
      (rest : Run capacity between calls answers after) :
      Run capacity s (call :: calls) (answer :: answers) after

end

/-! ## Queues -/

/-- The keys that are held, in the order in which they were used. -/
structure Queue (s : Recent K V) (queue : List K) : Prop where
  mem_iff : ∀ key, key ∈ queue ↔ key ∈ s.keys
  ordered : queue.Pairwise fun first second => s.lastUsed first < s.lastUsed second
  past : ∀ key ∈ queue, s.lastUsed key < s.now

variable {s : Recent K V} {queue : List K} {key : K} {value : V}

theorem queue_empty : Queue (empty : Recent K V) [] where
  mem_iff key := iff_of_false List.not_mem_nil fun held => held rfl
  ordered := .nil
  past key member := by cases member

theorem queue_cleared (s : Recent K V) : Queue s.cleared [] where
  mem_iff key := iff_of_false List.not_mem_nil fun held => held rfl
  ordered := .nil
  past key member := by cases member

namespace Queue

theorem nodup (held : Queue s queue) : queue.Nodup :=
  held.ordered.imp fun {_ _} earlier same => absurd earlier (by rw [same]; exact lt_irrefl _)

/-- There are as many keys as the queue is long. -/
theorem ncard_keys (held : Queue s queue) : s.keys.ncard = queue.length := by
  classical
  have keys : s.keys = (queue.toFinset : Set K) := by
    ext key
    rw [List.coe_toFinset]
    exact (held.mem_iff key).symm
  rw [keys, Set.ncard_coe_finset, List.toFinset_card_of_nodup held.nodup]

/-- The key at the front was used least recently. -/
theorem oldest {rest : List K} (held : Queue s (key :: rest)) :
    ∀ other ∈ s.keys, s.lastUsed key ≤ s.lastUsed other := by
  intro other among
  rcases List.mem_cons.mp ((held.mem_iff other).mpr among) with rfl | later
  · exact le_rfl
  · exact ((List.pairwise_cons.mp held.ordered).1 other later).le

variable [DecidableEq K]

theorem drop (held : Queue s queue) (key : K) : Queue (s.drop key) (queue.erase key) where
  mem_iff other := by
    rw [held.nodup.mem_erase_iff, held.mem_iff]
    change _ ↔ Function.update s.value key none other ≠ none
    by_cases same : other = key
    · subst same
      rw [Function.update_self]
      exact iff_of_false (fun both => both.1 rfl) fun absurd => absurd rfl
    · rw [Function.update_of_ne same]
      exact and_iff_right same
  ordered := held.ordered.sublist List.erase_sublist
  past other member := held.past other (List.mem_of_mem_erase member)

/-- A key that is used goes to the back, be it a new one or not. -/
theorem use_of_agrees (held : Queue s queue) {t : Recent K V} (times : t.lastUsed = s.lastUsed ∧ t.now = s.now)
    (others : ∀ other ≠ key, other ∈ t.keys ↔ other ∈ s.keys) (among : key ∈ t.keys) :
    Queue (t.use key) (queue.erase key ++ [key]) where
  mem_iff other := by
    rw [List.mem_append, List.mem_singleton, held.nodup.mem_erase_iff, held.mem_iff]
    change _ ↔ other ∈ t.keys
    by_cases same : other = key
    · subst same
      exact iff_of_true (.inr rfl) among
    · rw [others other same]
      exact ⟨fun found => found.elim And.right fun here => absurd here same, fun found => .inl ⟨same, found⟩⟩
  ordered := by
    have kept : ∀ other ∈ queue.erase key, (t.use key).lastUsed other = s.lastUsed other := by
      intro other member
      rw [← times.1]
      exact Function.update_of_ne (held.nodup.mem_erase_iff.mp member).1 _ _
    rw [List.pairwise_append]
    refine ⟨?_, List.pairwise_singleton _ _, ?_⟩
    · refine (held.ordered.sublist List.erase_sublist).imp_of_mem fun {first second} inFirst inSecond earlier => ?_
      rwa [kept first inFirst, kept second inSecond]
    · intro first inFirst second isKey
      obtain rfl := List.mem_singleton.mp isKey
      rw [kept first inFirst]
      change s.lastUsed first < Function.update t.lastUsed second t.now second
      rw [Function.update_self, times.2]
      exact held.past first (List.mem_of_mem_erase inFirst)
  past other member := by
    change Function.update t.lastUsed key t.now other < t.now + 1
    rw [times.1, times.2]
    by_cases same : other = key
    · rw [same, Function.update_self]
      exact Nat.lt_succ_self _
    · rw [Function.update_of_ne same]
      have inQueue : other ∈ queue := by
        rcases List.mem_append.mp member with before | here
        · exact List.mem_of_mem_erase before
        · exact absurd (List.mem_singleton.mp here) same
      exact (held.past other inQueue).trans (Nat.lt_succ_self _)

theorem use (held : Queue s queue) (among : key ∈ s.keys) : Queue (s.use key) (queue.erase key ++ [key]) :=
  held.use_of_agrees ⟨rfl, rfl⟩ (fun _ _ => Iff.rfl) among

theorem put (held : Queue s queue) (key : K) (value : V) :
    Queue (s.put key value) (queue.erase key ++ [key]) := by
  refine held.use_of_agrees ⟨rfl, rfl⟩ (fun other different => ?_) ?_
  · change Function.update s.value key (some value) other ≠ none ↔ _
    rw [Function.update_of_ne different]
    rfl
  · change Function.update s.value key (some value) key ≠ none
    rw [Function.update_self]
    exact Option.some_ne_none value

end Queue

end Recent

end Squrust.Foundation
