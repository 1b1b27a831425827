import Squrust.Core.Storage.Checkpoint

/-!
# Snapshot isolation

A session simulates the abstract store: the committed version shows the
committed state, each reader's snapshot the state it began with, and the pages a
writer keeps to itself are those of its draft (`Simulates`). Every call keeps
this and gives a reply that conforms (`Simulates.steps`), so every run conforms.
-/

set_option autoImplicit false

namespace Squrust.Core

open Squrust.Foundation

open StorageEngine (Shows Mirrors Sound visible)

/-! ## Readers by name -/

section Names

variable {α β : Type} {R : α → β → Prop} {first : List (Nat × α)} {second : List (Nat × β)}

/-- Lists with the same names, and values in a relation. -/
abbrev SameNames (R : α → β → Prop) : List (Nat × α) → List (Nat × β) → Prop :=
  List.Forall₂ fun left right => left.1 = right.1 ∧ R left.2 right.2

/-- The first entry of a name. -/
abbrev named {γ : Type} (name : Nat) (entries : List (Nat × γ)) : Option (Nat × γ) :=
  entries.find? fun entry => entry.1 = name

theorem SameNames.named_none (same : SameNames R first second) (name : Nat) :
    named name first = none ↔ named name second = none := by
  induction same with
  | nil => exact iff_of_true rfl rfl
  | @cons left right _ _ related _ ih =>
      by_cases here : left.1 = name
      · have there : right.1 = name := related.1.symm.trans here
        simp [named, here, there]
      · have there : right.1 ≠ name := fun same => here (related.1.trans same)
        simpa [named, here, there] using ih

theorem SameNames.named_some (same : SameNames R first second) {name : Nat} {left : Nat × α}
    {right : Nat × β} (inFirst : named name first = some left)
    (inSecond : named name second = some right) : R left.2 right.2 := by
  induction same with
  | nil => cases inFirst
  | @cons head head' _ _ related _ ih =>
      by_cases here : head.1 = name
      · have there : head'.1 = name := related.1.symm.trans here
        simp only [named, List.find?_cons, here, there, decide_true] at inFirst inSecond
        cases inFirst
        cases inSecond
        exact related.2
      · have there : head'.1 ≠ name := fun same => here (related.1.trans same)
        simp only [named, List.find?_cons, here, there, decide_false] at inFirst inSecond
        exact ih inFirst inSecond

theorem SameNames.imp {S : α → β → Prop} (same : SameNames R first second)
    (implies : ∀ left ∈ first, ∀ right, R left.2 right → S left.2 right) : SameNames S first second := by
  induction same with
  | nil => exact .nil
  | @cons left right _ _ related _ ih =>
      exact .cons ⟨related.1, implies left List.mem_cons_self _ related.2⟩
        (ih fun entry among => implies entry (List.mem_cons_of_mem _ among))

theorem SameNames.erase (same : SameNames R first second) (name : Nat) :
    SameNames R (first.eraseP fun entry => entry.1 = name)
      (second.eraseP fun entry => entry.1 = name) := by
  induction same with
  | nil => exact .nil
  | @cons left right _ _ related later ih =>
      by_cases here : left.1 = name
      · have there : right.1 = name := related.1.symm.trans here
        simpa [here, there] using later
      · have there : right.1 ≠ name := fun same => here (related.1.trans same)
        have kept : SameNames R (left :: _) (right :: _) := .cons related ih
        simpa [here, there] using kept

/-- Without the entry of a name. -/
theorem perm_erase {name : Nat} {entry : Nat × α} (found : named name first = some entry) :
    first.Perm (entry :: first.eraseP fun entry => entry.1 = name) := by
  induction first with
  | nil => cases found
  | cons head rest ih =>
      by_cases here : head.1 = name
      · simp only [named, List.find?_cons, here, decide_true] at found
        cases found
        simp [here]
      · simp only [named, List.find?_cons, here, decide_false] at found
        have rest_eq := ih found
        simpa [here] using (rest_eq.cons head).trans (List.Perm.swap _ _ _)

end Names

/-! ## The simulation -/

/-- The transaction keeps the pages of the draft, over the committed version. -/
structure Drafts (engine : StorageEngine) (tx : WriteTx) (draft : Draft) : Prop where
  current : tx.snapshot = engine.mvcc.committed
  unfinished : tx.finished = false
  sized : tx.localPageCount ≠ 0
  base : Shows engine engine.mvcc.committed draft.base
  own : ∀ id, tx.pending.get? id = match draft.own id with
    | .written data => some ⟨id, data⟩
    | _ => none

/-- A transaction for a draft. -/
def WriterDrafts (engine : StorageEngine) : Option WriteTx → Option Draft → Prop
  | none, none => True
  | some tx, some draft => Drafts engine tx draft
  | _, _ => False

/-- The draft of a transaction on another engine with the same committed state. -/
theorem WriterDrafts.transfer {engine engine' : StorageEngine} {tx? : Option WriteTx}
    {draft? : Option Draft} (drafts : WriterDrafts engine tx? draft?)
    (committed : engine'.mvcc.committed = engine.mvcc.committed)
    (shows_ : ∀ contents, Shows engine engine.mvcc.committed contents →
      Shows engine' engine'.mvcc.committed contents) : WriterDrafts engine' tx? draft? := by
  cases tx? with
  | none =>
      cases draft? with
      | none => trivial
      | some draft => exact drafts.elim
  | some tx =>
      cases draft? with
      | none => exact drafts.elim
      | some draft =>
          exact ⟨drafts.current.trans committed.symm, drafts.unfinished, drafts.sized,
            shows_ _ drafts.base, drafts.own⟩

structure Simulates (session : Session) (store : Store) : Prop where
  sound : session.engine.Sound (session.readers.map Prod.snd)
  committed : Shows session.engine session.engine.mvcc.committed store.committed
  readers : SameNames (Shows session.engine) session.readers store.readers
  gate : session.engine.gate = session.writer.isSome
  writer : WriterDrafts session.engine session.writer store.writer

namespace Simulates

variable {session : Session} {store : Store}

/-- An engine with the same committed version, whose snapshots see what they saw. -/
theorem transfer (simulates : Simulates session store) {engine : StorageEngine}
    (sound : engine.Sound (session.readers.map Prod.snd))
    (committed : engine.mvcc.committed = session.engine.mvcc.committed)
    (gate : engine.gate = session.engine.gate)
    (shows_ : ∀ version contents,
      version ∈ session.readers.map Prod.snd ∨ version = session.engine.mvcc.committed →
        Shows session.engine version contents → Shows engine version contents) :
    Simulates { session with engine } store where
  sound := sound
  committed := by
    change Shows engine engine.mvcc.committed _
    rw [committed]
    exact shows_ _ _ (Or.inr rfl) simulates.committed
  readers := simulates.readers.imp fun entry among contents =>
    shows_ entry.2 contents (Or.inl (List.mem_map_of_mem among))
  gate := gate.trans simulates.gate
  writer := simulates.writer.transfer committed fun contents seen => by
    rw [committed]
    exact shows_ _ _ (Or.inr rfl) seen

theorem withCache (simulates : Simulates session store) {cache : PageCache}
    (mirrors : Mirrors cache session.engine.disk.main) :
    Simulates { session with engine := { session.engine with cache } } store :=
  simulates.transfer (simulates.sound.withCache mirrors) rfl rfl fun _ _ _ shows_ => shows_

/-- A lookup changes only the cache, and finds what its snapshot sees. -/
theorem readPageAt (simulates : Simulates session store) (id : PageId) (version : TransactionId) :
    ∃ cache, Mirrors cache session.engine.disk.main ∧
      ((∃ page, StorageEngine.readPageAt id version session.engine =
          .ok page { session.engine with cache } ∧
          ∀ contents, Shows session.engine version contents → ∀ data, contents id = some data →
            (EngineReply.page page).Shows id data) ∨
        (∃ fault, StorageEngine.readPageAt id version session.engine =
          .error fault { session.engine with cache }) ∧
          ∀ contents, Shows session.engine version contents → contents id = none) := by
  have mirrors := simulates.sound.mirrors
  cases sees : visible session.engine.wal.index session.engine.disk.main version id with
  | some found =>
      obtain ⟨page, cache, returned, named, same, still⟩ :=
        StorageEngine.readPageAt_visible mirrors sees
      refine ⟨cache, still, Or.inl ⟨page, returned, fun contents shows_ data known => ?_⟩⟩
      obtain ⟨found', sees', same'⟩ := shows_ id data known
      rw [sees] at sees'
      cases sees'
      exact ⟨page, rfl, named, same.trans same'⟩
  | none =>
      refine ⟨session.engine.cache, mirrors, Or.inr ⟨⟨_,
        StorageEngine.readPageAt_missing mirrors sees⟩, fun contents shows_ => ?_⟩⟩
      cases known : contents id with
      | none => rfl
      | some data =>
          obtain ⟨found', sees', -⟩ := shows_ id data known
          rw [sees] at sees'
          cases sees'

/-! ## One call -/

/-- The reply to a call conforms, and the session still simulates the store. -/
def Steps (session : Session) (store : Store) (call : EngineCall) : Prop :=
  store.Allows call (session.step call).2 ∧
    Simulates (session.step call).1 (store.step call (session.step call).2)

/-- A reader has a snapshot when it has a state, and its snapshot sees its state. -/
theorem snapshot_none (simulates : Simulates session store) (reader : Nat) :
    session.snapshot reader = none ↔ store.state reader = none := by
  rw [Session.snapshot, Store.state, Option.map_eq_none_iff, Option.map_eq_none_iff]
  exact simulates.readers.named_none reader

theorem snapshot_shows (simulates : Simulates session store) {reader : Nat}
    {snapshot : TransactionId} {contents : Contents} (pinned : session.snapshot reader = some snapshot)
    (state : store.state reader = some contents) : Shows session.engine snapshot contents := by
  obtain ⟨entry, found, rfl⟩ := Option.map_eq_some_iff.mp pinned
  obtain ⟨entry', found', rfl⟩ := Option.map_eq_some_iff.mp state
  exact simulates.readers.named_some found found'

theorem steps_readPage (simulates : Simulates session store) (reader : Nat) (id : PageId) :
    Steps session store (.readPage reader id) := by
  unfold Steps
  cases pinned : session.snapshot reader with
  | none =>
      have noState := (simulates.snapshot_none reader).mp pinned
      simp only [Session.step, pinned]
      refine ⟨fun contents state => ?_, simulates⟩
      rw [noState] at state
      cases state
  | some snapshot =>
      obtain ⟨cache, mirrors, ⟨page, returned, shown⟩ | ⟨⟨fault, failed⟩, unknown⟩⟩ :=
        simulates.readPageAt id snapshot
      · simp only [Session.step, pinned, returned]
        exact ⟨fun contents state => shown contents (simulates.snapshot_shows pinned state),
          simulates.withCache mirrors⟩
      · simp only [Session.step, pinned, failed]
        refine ⟨fun contents state data known => ?_, simulates.withCache mirrors⟩
        rw [unknown contents (simulates.snapshot_shows pinned state)] at known
        cases known

theorem steps_beginRead (simulates : Simulates session store) (reader : Nat) :
    Steps session store (.beginRead reader) := by
  unfold Steps
  refine ⟨trivial, ?_⟩
  cases pinned : session.snapshot reader with
  | some snapshot =>
      simp only [Session.step, pinned]
      exact simulates
  | none =>
      simp only [Session.step, pinned, StorageEngine.beginRead, MvccManager.beginRead]
      exact ⟨simulates.sound.beginRead, simulates.committed,
        .cons ⟨rfl, simulates.committed⟩ simulates.readers, simulates.gate,
        simulates.writer.transfer rfl fun _ seen => seen⟩

theorem steps_dropRead (simulates : Simulates session store) (reader : Nat) :
    Steps session store (.dropRead reader) := by
  unfold Steps
  refine ⟨trivial, ?_⟩
  cases pinned : session.snapshot reader with
  | none =>
      simp only [Session.step, pinned]
      exact simulates
  | some snapshot =>
      obtain ⟨entry, found, rfl⟩ := Option.map_eq_some_iff.mp pinned
      have versions := (perm_erase found).map Prod.snd
      have dropped := (simulates.sound.perm versions).dropRead
      have committed : (session.engine.dropRead entry.2).mvcc.committed =
          session.engine.mvcc.committed :=
        MvccManager.committed_endRead _ _
      simp only [Session.step, pinned]
      refine ⟨dropped, ?_, simulates.readers.erase reader, simulates.gate,
        simulates.writer.transfer committed fun contents seen => ?_⟩
      · change Shows _ (session.engine.dropRead entry.2).mvcc.committed _
        rw [committed]
        exact simulates.committed
      · rw [committed]
        exact seen

theorem steps_checkpoint (simulates : Simulates session store) :
    Steps session store .checkpoint := by
  unfold Steps
  refine ⟨trivial, ?_⟩
  have checkpointed := simulates.sound.checkpoint
  have still := simulates.transfer checkpointed.sound
    (congrArg MvccManager.committed checkpointed.mvcc) checkpointed.gate checkpointed.shows_
  unfold Exec.reached at still
  cases ran : StorageEngine.checkpoint session.engine with
  | ok value engine =>
      simp only [Session.step, ran] at still ⊢
      exact still
  | error fault engine =>
      simp only [Session.step, ran] at still ⊢
      exact still

theorem steps_beginWrite (simulates : Simulates session store) : Steps session store .beginWrite := by
  unfold Steps
  refine ⟨trivial, ?_⟩
  cases openTx : session.writer with
  | some tx =>
      simp only [Session.step, openTx]
      exact simulates
  | none =>
      have gate : session.engine.gate = false := by
        rw [simulates.gate, openTx]
        rfl
      simp only [Session.step, openTx, StorageEngine.beginWrite, gate, Bool.false_eq_true, if_false]
      have sound : Sound { session.engine with gate := true } (session.readers.map Prod.snd) :=
        { simulates.sound with }
      refine ⟨sound, simulates.committed, simulates.readers, rfl, ?_⟩
      exact ⟨rfl, rfl, simulates.sound.pages, simulates.committed, fun id => rfl⟩

/-- The writer's transaction has a draft. -/
theorem exists_draft (simulates : Simulates session store) {tx : WriteTx}
    (openTx : session.writer = some tx) :
    ∃ draft, store.writer = some draft ∧ Drafts session.engine tx draft := by
  have writer := simulates.writer
  rw [openTx] at writer
  cases state : store.writer with
  | none =>
      rw [state] at writer
      exact writer.elim
  | some draft =>
      rw [state] at writer
      exact ⟨draft, rfl, writer⟩

theorem noDraft (simulates : Simulates session store) (closed : session.writer = none) :
    store.writer = none := by
  have writer := simulates.writer
  rw [closed] at writer
  cases state : store.writer with
  | none => rfl
  | some draft =>
      rw [state] at writer
      exact writer.elim

/-- The writer's pages and the cache changed. -/
theorem stillOpen (simulates : Simulates session store) {cache : PageCache} {tx : WriteTx}
    {draft : Draft} (mirrors : Mirrors cache session.engine.disk.main)
    (isOpen : session.writer.isSome = true) (drafts : Drafts session.engine tx draft) :
    Simulates (session.stillOpen ⟨{ session.engine with cache }, tx⟩)
      { store with writer := some draft } := by
  have cached := simulates.withCache mirrors
  have unfinished := drafts.unfinished
  refine ⟨cached.sound, cached.committed, cached.readers, ?_, ?_⟩
  · change session.engine.gate = (if tx.finished then none else some tx).isSome
    rw [simulates.gate, isOpen, unfinished]
    rfl
  · change WriterDrafts _ (if tx.finished then none else some tx) _
    rw [unfinished]
    exact ⟨drafts.current, drafts.unfinished, drafts.sized, drafts.base, drafts.own⟩

theorem steps_getPage (simulates : Simulates session store) (id : PageId) :
    Steps session store (.getPage id) := by
  unfold Steps
  cases openTx : session.writer with
  | none =>
      have noDraft := simulates.noDraft openTx
      simp only [Session.step, Session.onWriter_of_none openTx]
      refine ⟨fun draft state => ?_, simulates⟩
      rw [noDraft] at state
      cases state
  | some tx =>
      obtain ⟨draft, state, drafts⟩ := simulates.exists_draft openTx
      have isOpen : session.writer.isSome = true := by rw [openTx]; rfl
      have same : { store with writer := some draft } = store := by rw [← state]
      have ownId := drafts.own id
      cases own : tx.pending.get? id with
      | some page =>
          have ran := @WriteTx.getPage_of_some session.engine tx id page own
          have after := simulates.stillOpen simulates.sound.mirrors isOpen drafts
          rw [same] at after
          simp only [Session.step, Session.onWriter_of_ok openTx ran]
          refine ⟨fun draft' state' => ?_, after⟩
          obtain rfl := Option.some.inj (state.symm.trans state')
          rw [own] at ownId
          cases kind : draft.own id with
          | written data =>
              rw [kind] at ownId
              rw [Option.some.inj ownId]
          | untouched =>
              rw [kind] at ownId
              cases ownId
          | freed => trivial
      | none =>
          obtain ⟨cache, mirrors, found⟩ := simulates.readPageAt id tx.snapshot
          have after := simulates.stillOpen mirrors isOpen drafts
          rw [same] at after
          have base := drafts.base
          rw [← drafts.current] at base
          have begun := @WriteTx.getPage_of_none session.engine tx id own
          rcases found with ⟨page, returned, shown⟩ | ⟨⟨fault, failed⟩, unknown⟩
          · have ran := begun.trans (WriteTx.onEngine_of_ok returned)
            simp only [Session.step, Session.onWriter_of_ok openTx ran]
            refine ⟨fun draft' state' => ?_, after⟩
            obtain rfl := Option.some.inj (state.symm.trans state')
            rw [own] at ownId
            cases kind : draft.own id with
            | written data =>
                rw [kind] at ownId
                cases ownId
            | untouched => exact shown _ base
            | freed => trivial
          · have ran := begun.trans (WriteTx.onEngine_of_error failed)
            simp only [Session.step, Session.onWriter_of_error openTx ran]
            refine ⟨fun draft' state' => ?_, after⟩
            obtain rfl := Option.some.inj (state.symm.trans state')
            rw [own] at ownId
            cases kind : draft.own id with
            | written data =>
                rw [kind] at ownId
                cases ownId
            | untouched =>
                intro data known
                rw [unknown _ base] at known
                cases known
            | freed => trivial

/-- A call that only changes the writer's pages. -/
theorem steps_onWriter (simulates : Simulates session store) {α : Type} {call : EngineCall}
    {code : Exec Writing StorageError α} {reply : α → EngineReply}
    (isStep : session.step call = session.onWriter code reply)
    (allowed : ∀ reply, store.Allows call reply)
    (effect : ∀ tx draft, store.writer = some draft → Drafts session.engine tx draft →
      (∃ value tx' draft', code ⟨session.engine, tx⟩ = .ok value ⟨session.engine, tx'⟩ ∧
        Drafts session.engine tx' draft' ∧
        store.step call (reply value) = { store with writer := some draft' }) ∨
      ∃ fault, code ⟨session.engine, tx⟩ = .error fault ⟨session.engine, tx⟩) :
    Steps session store call := by
  unfold Steps
  refine ⟨allowed _, ?_⟩
  rw [isStep]
  cases openTx : session.writer with
  | none =>
      rw [Session.onWriter_of_none openTx]
      exact simulates
  | some tx =>
      obtain ⟨draft, state, drafts⟩ := simulates.exists_draft openTx
      have isOpen : session.writer.isSome = true := by rw [openTx]; rfl
      have same : { store with writer := some draft } = store := by rw [← state]
      rcases effect tx draft state drafts with ⟨value, tx', draft', ran, drafts', updated⟩ | ⟨fault, ran⟩
      · rw [Session.onWriter_of_ok openTx ran, updated]
        exact simulates.stillOpen simulates.sound.mirrors isOpen drafts'
      · rw [Session.onWriter_of_error openTx ran]
        have after := simulates.stillOpen simulates.sound.mirrors isOpen drafts
        rw [same] at after
        exact after

theorem steps_writePage (simulates : Simulates session store) (page : RawPage) :
    Steps session store (.writePage page) := by
  have isStep : session.step (.writePage page) =
      session.onWriter (WriteTx.writePage page) fun _ => .done := rfl
  refine simulates.steps_onWriter isStep (fun _ => trivial) fun tx draft state drafts => Or.inl
    ⟨(), { tx with pending := tx.pending.insert page.id page },
      draft.set page.id (.written page.data), rfl, ?_, ?_⟩
  · refine ⟨drafts.current, drafts.unfinished, drafts.sized, drafts.base, fun id => ?_⟩
    have own := drafts.own id
    simp only [FiniteMap.get?_insert, Draft.set]
    by_cases same : id = page.id
    · simp only [same, if_true]
    · simp only [same, if_false]
      exact own
  · simp only [Store.step, Store.update, state, Option.map_some]

theorem steps_freePage (simulates : Simulates session store) (id : PageId) :
    Steps session store (.freePage id) := by
  have isStep : session.step (.freePage id) =
      session.onWriter (WriteTx.freePage id) fun _ => .done := rfl
  refine simulates.steps_onWriter isStep (fun _ => trivial) fun tx draft state drafts => Or.inl
    ⟨(), { tx with pending := tx.pending.erase id, localFreelist := id :: tx.localFreelist },
      draft.set id .freed, rfl, ?_, ?_⟩
  · refine ⟨drafts.current, drafts.unfinished, drafts.sized, drafts.base, fun other => ?_⟩
    have own := drafts.own other
    simp only [FiniteMap.get?_erase, Draft.set]
    by_cases same : other = id
    · simp only [same, if_true]
    · simp only [same, if_false]
      exact own
  · simp only [Store.step, Store.update, state, Option.map_some]

theorem steps_allocPage (simulates : Simulates session store) :
    Steps session store .allocPage := by
  refine simulates.steps_onWriter rfl (fun _ => trivial) fun tx draft state drafts => ?_
  have same : { store with writer := some draft } = store := by rw [← state]
  cases free : tx.localFreelist with
  | cons id rest =>
      refine Or.inl ⟨id, { tx with localFreelist := rest }, draft, ?_,
        ⟨drafts.current, drafts.unfinished, drafts.sized, drafts.base, drafts.own⟩, same.symm⟩
      simp only [WriteTx.allocPage, free]
  | nil =>
      by_cases room : tx.localPageCount.toNat + 1 < 2 ^ 32
      · have grown : tx.localPageCount + 1 ≠ 0 := by
          intro zero
          have next := congrArg UInt32.toNat zero
          rw [UInt32.toNat_add] at next
          have exact_ := Nat.mod_eq_of_lt room
          exact absurd (exact_.symm.trans next) (Nat.succ_ne_zero _)
        refine Or.inl ⟨tx.localPageCount + 1,
          { tx with localPageCount := tx.localPageCount + 1 }, draft, ?_,
          ⟨drafts.current, drafts.unfinished, grown, drafts.base, drafts.own⟩, same.symm⟩
        simp only [WriteTx.allocPage, free, room, if_true]
      · refine Or.inr ⟨.panic "attempt to add with overflow", ?_⟩
        simp only [WriteTx.allocPage, free, room, if_false]

theorem steps_rollback (simulates : Simulates session store) {call : EngineCall}
    (isStep : session.step call = session.onWriter WriteTx.rollback fun _ => .done)
    (allowed : ∀ reply, store.Allows call reply)
    (closes : store.step call .done = { store with writer := none }) : Steps session store call := by
  unfold Steps
  refine ⟨allowed _, ?_⟩
  rw [isStep]
  cases openTx : session.writer with
  | none =>
      rw [Session.onWriter_of_none openTx]
      exact simulates
  | some tx =>
      obtain ⟨draft, -, drafts⟩ := simulates.exists_draft openTx
      have ran : WriteTx.rollback ⟨session.engine, tx⟩ =
          .ok () ⟨{ session.engine with gate := false }, { tx with finished := true }⟩ := by
        change EStateM.Result.ok _ (WriteTx.finish _) = _
        simp only [WriteTx.finish, drafts.unfinished, Bool.false_eq_true, if_false]
      rw [Session.onWriter_of_ok openTx ran, closes]
      have sound : Sound { session.engine with gate := false } (session.readers.map Prod.snd) :=
        { simulates.sound with }
      exact ⟨sound, simulates.committed, simulates.readers, rfl, trivial⟩

theorem steps_commit (simulates : Simulates session store) (order : List PageId) :
    Steps session store (.commit order) := by
  unfold Steps
  refine ⟨trivial, ?_⟩
  have isStep : session.step (.commit order) =
      session.onWriter (WriteTx.commit order) fun _ => .done := rfl
  rw [isStep]
  cases openTx : session.writer with
  | none =>
      rw [Session.onWriter_of_none openTx]
      exact simulates
  | some tx =>
      obtain ⟨draft, state, drafts⟩ := simulates.exists_draft openTx
      have isOpen : session.writer.isSome = true := by rw [openTx]; rfl
      have keyed : WriteTx.Keyed tx.pending := by
        intro id page own
        have ownId := drafts.own id
        rw [own] at ownId
        cases kind : draft.own id with
        | written data =>
            rw [kind] at ownId
            rw [Option.some.inj ownId]
        | untouched =>
            rw [kind] at ownId
            cases ownId
        | freed =>
            rw [kind] at ownId
            cases ownId
      rcases simulates.sound.commit order drafts.unfinished drafts.sized with
        ⟨after, ran, sound, advanced⟩ | ran
      · rw [Session.onWriter_of_ok openTx ran]
        have committed : Shows after after.mvcc.committed draft.contents := by
          have shown := drafts.base.commit simulates.sound keyed advanced
          intro id data known
          refine shown id data ?_
          have ownId := drafts.own id
          rw [← known, Draft.contents]
          cases kind : draft.own id with
          | written data' => simp only [ownId, kind]
          | untouched => simp only [ownId, kind]
          | freed => simp only [ownId, kind]
        refine ⟨sound, ?_, ?_, advanced.gate, ?_⟩
        · simp only [Store.step, Store.update, state, Option.map_some, Option.getD_some]
          exact committed
        · exact simulates.readers.imp fun entry among contents seen => seen.of_advanced advanced
            (simulates.sound.pinned entry.2 (List.mem_map_of_mem among))
        · trivial
      · rw [Session.onWriter_of_error openTx ran]
        have after := simulates.stillOpen simulates.sound.mirrors isOpen drafts
        have same : { store with writer := some draft } = store := by rw [← state]
        rw [same] at after
        exact after

/-- **Step.** A call gives a reply that conforms, and the session still simulates the store. -/
theorem steps (simulates : Simulates session store) (call : EngineCall) :
    Steps session store call := by
  cases call with
  | beginRead reader => exact simulates.steps_beginRead reader
  | readPage reader id => exact simulates.steps_readPage reader id
  | dropRead reader => exact simulates.steps_dropRead reader
  | beginWrite => exact simulates.steps_beginWrite
  | getPage id => exact simulates.steps_getPage id
  | writePage page => exact simulates.steps_writePage page
  | allocPage => exact simulates.steps_allocPage
  | freePage id => exact simulates.steps_freePage id
  | commit order => exact simulates.steps_commit order
  | rollback => exact simulates.steps_rollback rfl (fun _ => trivial) rfl
  | dropWrite => exact simulates.steps_rollback rfl (fun _ => trivial) rfl
  | checkpoint => exact simulates.steps_checkpoint

/-- **Run.** All replies conform, and the session simulates the store the calls lead to. -/
theorem run (simulates : Simulates session store) (calls : List EngineCall) :
    store.Conforms calls (session.run calls).2 ∧
      ∃ store', Simulates (session.run calls).1 store' := by
  induction calls generalizing session store with
  | nil => exact ⟨trivial, store, simulates⟩
  | cons call rest ih =>
      obtain ⟨allowed, after⟩ := simulates.steps call
      obtain ⟨conforms, store', finally_⟩ := ih after
      exact ⟨⟨allowed, conforms⟩, store', finally_⟩

end Simulates

end Squrust.Core
