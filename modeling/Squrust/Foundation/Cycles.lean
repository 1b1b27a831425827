import Mathlib.Data.Finite.Prod
import Mathlib.Data.Fintype.Card
import Mathlib.Logic.Relation

/-!
# Following links

Links lead from one item to others. Following them ends everywhere when there is
no endless path, and among finitely many items this means that no item that is
reached leads back to itself (`ends_iff_no_loop`). A loop of a program that
follows links, one in each round, ends when they do (`exists_run_iff`).
-/

set_option autoImplicit false

namespace Squrust.Foundation

open Relation

variable {α : Type} {Link : α → α → Prop}

/-- Every way to follow the links from an item ends. -/
def Ends (Link : α → α → Prop) (item : α) : Prop := Acc (fun later earlier => Link earlier later) item

/-- No item that the links lead to leads back to itself. -/
def NoLoop (Link : α → α → Prop) (start : α) : Prop :=
  ∀ item, ReflTransGen Link start item → ¬ TransGen Link item item

theorem ends_iff_links {item : α} : Ends Link item ↔ ∀ later, Link item later → Ends Link later :=
  ⟨fun ends _ link => ends.inv link, fun all => Acc.intro item all⟩

theorem Ends.reached {start item : α} (ends : Ends Link start) (reach : ReflTransGen Link start item) :
    Ends Link item := by
  induction reach with
  | refl => exact ends
  | tail _ link ih => exact ih.inv link

theorem Ends.no_return {item : α} (ends : Ends Link item) : ¬ TransGen Link item item := by
  induction ends with
  | intro item _ ih =>
    intro back
    obtain ⟨later, link, rest⟩ := TransGen.head'_iff.mp back
    exact ih later link (TransGen.tail' rest link)

theorem NoLoop.step {start later : α} (noLoop : NoLoop Link start) (link : Link start later) :
    NoLoop Link later :=
  fun item reach => noLoop item (ReflTransGen.head link reach)

/-- Among finitely many items only a loop goes on forever. -/
theorem ends_iff_no_loop [Finite α] {start : α} : Ends Link start ↔ NoLoop Link start := by
  refine ⟨fun ends item reach => (ends.reached reach).no_return, fun noLoop => ?_⟩
  let Behind (later earlier : { item // ReflTransGen Link start item }) : Prop :=
    TransGen Link earlier.val later.val
  have trans : IsTrans _ Behind := ⟨fun _ _ _ first second => second.trans first⟩
  have irrefl : Std.Irrefl Behind := ⟨fun item => noLoop item.val item.property⟩
  have wf : WellFounded Behind := Finite.wellFounded_of_trans_of_irrefl Behind
  have all : ∀ item : { item // ReflTransGen Link start item }, Ends Link item.val := by
    intro item
    induction wf.apply item with
    | intro item _ ih =>
      exact Acc.intro item.val fun later link =>
        ih ⟨later, item.property.tail link⟩ (TransGen.single link)
  exact all ⟨start, ReflTransGen.refl⟩

/-! ## Loops that follow links -/

/-- A loop has a budget of rounds and what it works on, which stands at an item. In a round it stops
if there is no link, or goes on at the one item that is linked. It runs to its end within some
budget when the links end, and where it stops its last round is good. -/
theorem exists_run_iff {Work : Type} {run : Nat → Work → Prop} {Kept : Work → Prop} {at' : Work → α}
    {Good : α → Prop} (spent : ∀ work, ¬ run 0 work)
    (round : ∀ work, Kept work →
      (∀ later, ¬ Link (at' work) later) ∧ ((∃ rounds, run (rounds + 1) work) ↔ Good (at' work)) ∨
      ∃ work', Kept work' ∧ (∀ later, Link (at' work) later ↔ later = at' work') ∧ Good (at' work) ∧
        ∀ rounds, run (rounds + 1) work ↔ run rounds work')
    {work : Work} (kept : Kept work) :
    (∃ rounds, run rounds work) ↔
      Ends Link (at' work) ∧ ∀ item, ReflTransGen Link (at' work) item → Good item := by
  constructor
  · rintro ⟨rounds, ran⟩
    induction rounds generalizing work with
    | zero => exact (spent work ran).elim
    | succ rounds ih =>
        rcases round work kept with ⟨last, good⟩ | ⟨work', kept', link, good, next⟩
        · refine ⟨ends_iff_links.mpr fun later linked => (last later linked).elim, fun item reach => ?_⟩
          rcases ReflTransGen.cases_head reach with rfl | ⟨later, linked, -⟩
          · exact good.mp ⟨rounds, ran⟩
          · exact (last later linked).elim
        · obtain ⟨ends, goods⟩ := ih kept' ((next rounds).mp ran)
          refine ⟨ends_iff_links.mpr fun later linked => ?_, fun item reach => ?_⟩
          · rwa [(link later).mp linked]
          · rcases ReflTransGen.cases_head reach with rfl | ⟨later, linked, reach⟩
            · exact good
            · rw [(link later).mp linked] at reach
              exact goods item reach
  · rintro ⟨ends, goods⟩
    generalize start : at' work = item at ends goods
    induction ends generalizing work with
    | intro item _ ih =>
      rcases round work kept with ⟨-, good⟩ | ⟨work', kept', link, -, next⟩
      · obtain ⟨rounds, ran⟩ := good.mpr (start ▸ goods item .refl)
        exact ⟨rounds + 1, ran⟩
      · rw [start] at link
        have linked := (link (at' work')).mpr rfl
        obtain ⟨rounds, ran⟩ := ih (at' work') linked kept' rfl fun other reach =>
          goods other (ReflTransGen.head linked reach)
        exact ⟨rounds + 1, (next rounds).mpr ran⟩

end Squrust.Foundation
