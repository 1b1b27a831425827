import Squrust.Core.Storage.Engine

/-!
# Calls on an engine, and what they are for

A session is an engine with the transactions that are open on it: any number of
readers, known by names, and at most one writer. Calls come one after the other
and each is run to its end (`Session.run`).

What the engine is for is said without logs, caches and files: there is a
committed state, a map from page ids to contents, of which a reader keeps the
state it began with, and a writer a draft of the next (`Store`). A reply
conforms when it shows the page of the right state (`Store.Allows`). Of a page
no state has, nothing is said.
-/

set_option autoImplicit false

namespace Squrust.Core

open Squrust.Foundation

/-- A call on an engine or one of its transactions. -/
inductive EngineCall where
  | beginRead (reader : Nat)
  | readPage (reader : Nat) (id : PageId)
  | dropRead (reader : Nat)
  | beginWrite
  | getPage (id : PageId)
  | writePage (page : RawPage)
  | allocPage
  | freePage (id : PageId)
  | commit (order : List PageId)
  | rollback
  | dropWrite
  | checkpoint

/-- What a call returns. -/
inductive EngineReply where
  | page (page : RawPage)
  | allocated (id : PageId)
  | done
  | failed (fault : Fault StorageError)
  /-- There is no such call: its transaction is not open, or is open already. -/
  | noCall

/-! ## Sessions -/

/-- An engine and the transactions that are open. -/
structure Session where
  engine : StorageEngine
  readers : List (Nat × TransactionId)
  writer : Option WriteTx

namespace Session

variable {α : Type}

/-- An engine without transactions. -/
def start (engine : StorageEngine) : Session := ⟨engine, [], none⟩

/-- The snapshot of a reader. -/
def snapshot (session : Session) (reader : Nat) : Option TransactionId :=
  (session.readers.find? fun entry => entry.1 = reader).map Prod.snd

/-- The session with its writer, which is open until it is finished. -/
def stillOpen (session : Session) (writing : Writing) : Session :=
  { session with
    engine := writing.engine
    writer := if writing.tx.finished then none else some writing.tx }

/-- A call on the write transaction. -/
def onWriter (session : Session) (code : Exec Writing StorageError α) (reply : α → EngineReply) :
    Session × EngineReply :=
  match session.writer with
  | none => (session, .noCall)
  | some tx =>
      match code ⟨session.engine, tx⟩ with
      | .ok value writing => (session.stillOpen writing, reply value)
      | .error fault writing => (session.stillOpen writing, .failed fault)

/-- One call. -/
def step (session : Session) : EngineCall → Session × EngineReply
  | .beginRead reader =>
      match session.snapshot reader, StorageEngine.beginRead session.engine with
      | none, .ok snapshot engine =>
          ({ session with engine, readers := (reader, snapshot) :: session.readers }, .done)
      | none, .error fault engine => ({ session with engine }, .failed fault)
      | some _, _ => (session, .noCall)
  | .readPage reader id =>
      match session.snapshot reader with
      | none => (session, .noCall)
      | some snapshot =>
          match StorageEngine.readPageAt id snapshot session.engine with
          | .ok page engine => ({ session with engine }, .page page)
          | .error fault engine => ({ session with engine }, .failed fault)
  | .dropRead reader =>
      match session.snapshot reader with
      | none => (session, .noCall)
      | some snapshot =>
          ({ session with
            engine := session.engine.dropRead snapshot
            readers := session.readers.eraseP fun entry => entry.1 = reader }, .done)
  | .beginWrite =>
      match session.writer, StorageEngine.beginWrite session.engine with
      | none, .ok tx engine => ({ session with engine, writer := some tx }, .done)
      | none, .error fault engine => ({ session with engine }, .failed fault)
      | some _, _ => (session, .noCall)
  | .getPage id => session.onWriter (WriteTx.getPage id) .page
  | .writePage page => session.onWriter (WriteTx.writePage page) fun _ => .done
  | .allocPage => session.onWriter WriteTx.allocPage .allocated
  | .freePage id => session.onWriter (WriteTx.freePage id) fun _ => .done
  | .commit order => session.onWriter (WriteTx.commit order) fun _ => .done
  | .rollback => session.onWriter WriteTx.rollback fun _ => .done
  | .dropWrite => session.onWriter WriteTx.rollback fun _ => .done
  | .checkpoint =>
      match StorageEngine.checkpoint session.engine with
      | .ok _ engine => ({ session with engine }, .done)
      | .error fault engine => ({ session with engine }, .failed fault)

variable {session : Session} {code : Exec Writing StorageError α} {reply : α → EngineReply}
  {tx : WriteTx} {writing : Writing}

theorem onWriter_of_none (closed : session.writer = none) :
    session.onWriter code reply = (session, .noCall) := by
  simp only [onWriter, closed]

theorem onWriter_of_ok {value : α} (openTx : session.writer = some tx)
    (ran : code ⟨session.engine, tx⟩ = .ok value writing) :
    session.onWriter code reply = (session.stillOpen writing, reply value) := by
  simp only [onWriter, openTx, ran]

theorem onWriter_of_error {fault : Fault StorageError} (openTx : session.writer = some tx)
    (ran : code ⟨session.engine, tx⟩ = .error fault writing) :
    session.onWriter code reply = (session.stillOpen writing, .failed fault) := by
  simp only [onWriter, openTx, ran]

/-- A sequence of calls, and what they returned. -/
def run (session : Session) : List EngineCall → Session × List EngineReply
  | [] => (session, [])
  | call :: calls =>
      let (between, reply) := session.step call
      let (after, replies) := between.run calls
      (after, reply :: replies)

end Session

/-! ## The abstract store -/

/-- A state: the contents of the pages it has. -/
abbrev Contents := PageId → Option PageData

/-- What a writer did to a page. -/
inductive Own where
  | untouched
  | written (data : PageData)
  | freed

/-- The state a writer began with, and what it did since. -/
structure Draft where
  base : Contents
  own : PageId → Own

/-- The committed state, the states the readers began with, and the writer's draft. -/
structure Store where
  committed : Contents
  readers : List (Nat × Contents)
  writer : Option Draft

namespace Draft

def start (base : Contents) : Draft := ⟨base, fun _ => .untouched⟩

def set (draft : Draft) (id : PageId) (own : Own) : Draft :=
  { draft with own := fun other => if other = id then own else draft.own other }

/-- The state the draft becomes: what was freed without being written keeps its content. -/
def contents (draft : Draft) : Contents := fun id =>
  match draft.own id with
  | .written data => some data
  | _ => draft.base id

end Draft

namespace Store

def start (committed : Contents) : Store := ⟨committed, [], none⟩

/-- What a call that returned does to the store. -/
def update (store : Store) : EngineCall → Store
  | .beginRead reader => { store with readers := (reader, store.committed) :: store.readers }
  | .dropRead reader =>
      { store with readers := store.readers.eraseP fun entry => entry.1 = reader }
  | .beginWrite => { store with writer := some (Draft.start store.committed) }
  | .writePage page =>
      { store with writer := store.writer.map fun draft => draft.set page.id (.written page.data) }
  | .freePage id => { store with writer := store.writer.map fun draft => draft.set id .freed }
  | .commit _ =>
      { store with
        committed := (store.writer.map Draft.contents).getD store.committed
        writer := none }
  | .rollback => { store with writer := none }
  | .dropWrite => { store with writer := none }
  | .readPage _ _ => store
  | .getPage _ => store
  | .allocPage => store
  | .checkpoint => store

/-- A call that fails does nothing. -/
def step (store : Store) (call : EngineCall) : EngineReply → Store
  | .failed _ => store
  | .noCall => store
  | _ => store.update call

end Store

/-- The content of a page without the file header. -/
def body (id : PageId) (data : PageData) : Bytes :=
  if id = 1 then data.val.drop headerSize else data.val

/-- The reply is a page with this content. -/
def EngineReply.Shows (reply : EngineReply) (id : PageId) (data : PageData) : Prop :=
  ∃ page, reply = .page page ∧ page.id = id ∧ body id page.data = body id data

namespace Store

/-- The state of a reader. -/
def state (store : Store) (reader : Nat) : Option Contents :=
  (store.readers.find? fun entry => entry.1 = reader).map Prod.snd

/-- A read shows the page of the reader's state; a writer sees its own pages first. -/
def Allows (store : Store) : EngineCall → EngineReply → Prop
  | .readPage reader id, reply =>
      ∀ contents, store.state reader = some contents →
        ∀ data, contents id = some data → reply.Shows id data
  | .getPage id, reply =>
      ∀ draft, store.writer = some draft →
        match draft.own id with
        | .written data => reply = .page ⟨id, data⟩
        | .untouched => ∀ data, draft.base id = some data → reply.Shows id data
        | .freed => True
  | _, _ => True

/-- All replies conform. -/
def Conforms : Store → List EngineCall → List EngineReply → Prop
  | _, [], [] => True
  | store, call :: calls, reply :: replies =>
      store.Allows call reply ∧ Conforms (store.step call reply) calls replies
  | _, _, _ => False

end Store

end Squrust.Core
