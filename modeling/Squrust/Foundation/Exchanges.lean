import Mathlib.Data.List.Perm.Basic
import Squrust.Foundation.SortedEntries

/-!
# Entries in place of others

Entries of a map leave it one after the other. For each one another comes in, under the key it
had or under a key that is free at that time (`Exchanges`). However the keys cross, no entry that
came in has to leave again and none is covered by another: at the end there are the entries that
came in and those that did not have to leave (`Exchanges.perm`).
-/

set_option autoImplicit false

namespace Squrust.Foundation

variable {K V : Type} [LinearOrder K]

namespace Entries

theorem nodup_of_ascending {entries : List (K × V)} (ascending : Ascending entries) : entries.Nodup :=
  ascending.imp fun {_ _} less equal => absurd less (by rw [equal]; exact lt_irrefl _)

theorem drop_of_absent {key : K} {entries : List (K × V)} (absent : lookup key entries = none) :
    drop key entries = entries := by
  rw [drop, List.filter_eq_self]
  exact fun entry member => decide_eq_true (lookup_eq_none_iff.mp absent entry member)

/-- An entry that is put in is one more, but for the one with its key. -/
theorem put_perm {key : K} {value : V} {entries : List (K × V)} (ascending : Ascending entries) :
    (put key value entries).Perm ((key, value) :: drop key entries) := by
  have apart : (key, value) ∉ drop key entries := fun member => (mem_drop.mp member).2 rfl
  have nodup : ((key, value) :: drop key entries).Nodup :=
    List.nodup_cons.mpr ⟨apart, nodup_of_ascending (ascending_drop ascending)⟩
  rw [List.perm_ext_iff_of_nodup (nodup_of_ascending (ascending_put ascending)) nodup]
  intro entry
  rw [mem_put, List.mem_cons, mem_drop]

end Entries

open Entries (put drop lookup)

/-- The entries with the keys `outs` leave one after the other, and those of `ins` come in for
them, each under a key that is free when the other one has left. -/
inductive Exchanges : List K → List (K × V) → List (K × V) → List (K × V) → Prop
  | nil (entries : List (K × V)) : Exchanges [] [] entries entries
  | cons {out key : K} {value : V} {outs : List K} {ins entries after : List (K × V)}
      (free : key ≠ out → lookup key entries = none)
      (later : Exchanges outs ins (put key value (drop out entries)) after) :
      Exchanges (out :: outs) ((key, value) :: ins) entries after

/-- **Exchanges.** Entries with different keys leave; the entries at the end are those that came in
for them, and the others. -/
theorem Exchanges.perm {outs : List K} {ins entries after : List (K × V)}
    (exchanges : Exchanges outs ins entries after) (ascending : Ascending entries) (once : outs.Nodup)
    (there : ∀ key ∈ outs, ∃ value, (key, value) ∈ entries) :
    Ascending after ∧ after.Perm (ins ++ entries.filter fun entry => decide (entry.1 ∉ outs)) := by
  induction exchanges with
  | nil entries =>
      refine ⟨ascending, ?_⟩
      rw [List.nil_append, List.filter_eq_self.mpr fun entry _ => by simp]
  | @cons out key value outs ins entries after free later ih =>
      obtain ⟨notAgain, once⟩ := List.nodup_cons.mp once
      -- the entry that comes in stays
      have stays : key ∉ outs := by
        intro leaves
        obtain ⟨other, member⟩ := there key (List.mem_cons_of_mem _ leaves)
        have moved : key ≠ out := fun same => notAgain (same ▸ leaves)
        exact Entries.lookup_eq_none_iff.mp (free moved) _ member rfl
      have present : ∀ other ∈ outs, ∃ held, (other, held) ∈ put key value (drop out entries) := by
        intro other leaves
        obtain ⟨held, member⟩ := there other (List.mem_cons_of_mem _ leaves)
        refine ⟨held, Entries.mem_put.mpr (.inr ⟨Entries.mem_drop.mpr ⟨member, ?_⟩, ?_⟩)⟩
        · exact fun same => notAgain (same ▸ leaves)
        · exact fun same => stays (same ▸ leaves)
      obtain ⟨sorted, exchanged⟩ :=
        ih (Entries.ascending_put (Entries.ascending_drop ascending)) once present
      refine ⟨sorted, exchanged.trans ?_⟩
      have absent : lookup key (drop out entries) = none := by
        rw [Entries.lookup_drop ascending]
        split
        · rfl
        · next moved => exact free moved
      have one : (put key value (drop out entries)).Perm ((key, value) :: drop out entries) :=
        (Entries.put_perm (Entries.ascending_drop ascending)).trans
          (.of_eq (congrArg _ (Entries.drop_of_absent absent)))
      have rest : ((put key value (drop out entries)).filter fun entry => decide (entry.1 ∉ outs)).Perm
          ((key, value) :: entries.filter fun entry => decide (entry.1 ∉ out :: outs)) := by
        refine (one.filter _).trans (List.Perm.of_eq ?_)
        rw [List.filter_cons_of_pos (by simpa using stays), drop, List.filter_filter]
        congr 1
        refine List.filter_congr fun entry _ => ?_
        simp only [List.mem_cons, not_or, ← Bool.decide_and]
        exact decide_eq_decide.mpr and_comm
      exact (rest.append_left ins).trans List.perm_middle

end Squrust.Foundation
