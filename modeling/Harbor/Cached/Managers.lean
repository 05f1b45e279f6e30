import Harbor.Cached.Keys
import Mathlib.Data.List.Find
import Mathlib.Logic.Function.Basic

/-!
# The cached managers of artifacts, repositories and projects

The three managers read a row from the cache, under the number of the row or under its name,
and ask the database only when the cache has nothing.  A write goes to the database at once,
but the keys of the row are evicted after the transaction has been committed: `AfterCommit`
collects the evictions of a transaction, and runs them immediately outside of one.

A request handled by the middleware of transactions carries the committed key, and nothing is
saved in the cache for it.  Other transactions do not carry it.

The database keeps committed rows.  A transaction sees them together with its own writes,
which are kept in an overlay; a nested transaction is a savepoint and starts from a copy of
the overlay.  A write that finds no row, or a row that is in its way, is an error and changes
nothing.  Locks are left out, they only rule out some orders.  Redis is available and no key
expires.
-/

namespace Harbor.Cached

variable {Data : Type*}

/-! ## Tables -/

/-- A row of one of the tables, as its manager returns it. -/
structure Row (Data : Type*) where
  id : ℕ
  name : Name
  data : Data
  deriving DecidableEq, Repr

namespace Row

/-- The table of the row and its number there. -/
def ident (row : Row Data) : Resource × ℕ :=
  (row.name.resource, row.id)

/-- The keys that `cleanUpKeys` evicts for the row. -/
def keys (row : Row Data) : List Key :=
  [.id row.name.resource row.id, .name row.name]

end Row

abbrev Table (Data : Type*) : Type _ := List (Row Data)

/-- The row under a key: `Get`, `GetByDigest` and `GetByName` without a cache. -/
def Table.find (table : Table Data) (key : Key) : Option (Row Data) :=
  table.find? fun row => row.keys.contains key

/-- A row that is written, or deleted if there is no new one. -/
structure Write (Data : Type*) where
  ident : Resource × ℕ
  row : Option (Row Data)

/-- The writes of a transaction. -/
structure Overlay (Data : Type*) where
  written : List (Resource × ℕ) := []
  rows : Table Data := []

namespace Overlay

/-- What the transaction sees. -/
def view (overlay : Overlay Data) (committed : Table Data) : Table Data :=
  committed.filter (fun row => !overlay.written.contains row.ident) ++ overlay.rows

def write (overlay : Overlay Data) (write : Write Data) : Overlay Data where
  written := write.ident :: overlay.written
  rows := overlay.rows.filter (fun row => row.ident != write.ident) ++ write.row.toList

end Overlay

/-! ## The managers without a cache -/

namespace Delegator

variable (view : Table Data)

/-- `Create`; a row with the same number or name is a conflict. -/
def create (row : Row Data) : Option (Write Data) :=
  if view.any fun other => other.ident == row.ident || other.name == row.name then none
  else some ⟨row.ident, some row⟩

/-- `Update` of some columns of the row with the number of the record; the name is one of
them if the row is renamed. -/
def update (record : Row Data) (renames : Bool) (assign : Data → Data) : Option (Write Data) :=
  match view.find (.id record.name.resource record.id) with
  | none => none
  | some row =>
    let name := if renames then record.name else row.name
    if view.any fun other => other.ident != row.ident && other.name == name then none
    else some ⟨row.ident, some { row with name, data := assign row.data }⟩

def delete (resource : Resource) (id : ℕ) : Option (Write Data) :=
  (view.find (.id resource id)).map fun row => ⟨row.ident, none⟩

/-- `Touch`, `AddPullCount`, `UpdatePullTime` and `DeleteReference` change what is stored
with one row. -/
def modify (resource : Resource) (id : ℕ) (assign : Data → Data) : Option (Write Data) :=
  (view.find (.id resource id)).map fun row =>
    ⟨row.ident, some { row with data := assign row.data }⟩

end Delegator

/-- A call to one of the managers.  Only the repositories have `Touch` and `AddPullCount`, and
only the artifacts have `UpdatePullTime` and `DeleteReference`; the projects have no `Update`,
which does not matter to what is shown here. -/
inductive Call (Data : Type*)
  | get (key : Key)
  | create (row : Row Data)
  | update (record : Row Data) (renames : Bool) (assign : Data → Data)
  | delete (resource : Resource) (id : ℕ)
  | touch (id : ℕ) (assign : Data → Data)
  | addPullCount (id : ℕ) (assign : Data → Data)
  | updatePullTime (id : ℕ) (assign : Data → Data)
  | deleteReference (id : ℕ) (assign : Data → Data)

/-- What the manager without a cache writes; nothing after an error. -/
def Call.write (view : Table Data) : Call Data → Option (Write Data)
  | .get _ => none
  | .create row => Delegator.create view row
  | .update record renames assign => Delegator.update view record renames assign
  | .delete resource id => Delegator.delete view resource id
  | .touch id assign => Delegator.modify view .repository id assign
  | .addPullCount id assign => Delegator.modify view .repository id assign
  | .updatePullTime id assign => Delegator.modify view .artifact id assign
  | .deleteReference id assign => Delegator.modify view .artifact id assign

/-- The manager without a cache in a transaction. -/
def Overlay.call (overlay : Overlay Data) (committed : Table Data) (call : Call Data) :
    Overlay Data :=
  match call.write (overlay.view committed) with
  | none => overlay
  | some write => overlay.write write

/-! ## The managers with a cache -/

/-- The database and the cache.  The committed states so far are kept for the proofs. -/
structure Store (Data : Type*) where
  committed : Table Data
  past : List (Table Data)
  cache : String → Option (Row Data)

namespace Store

/-- `cleanUpKeys`. -/
def evict (store : Store Data) (keys : List Key) : Store Data :=
  { store with
    cache := fun text => if text ∈ keys.map Key.text then none else store.cache text }

def commit (store : Store Data) (committed : Table Data) : Store Data :=
  { store with committed, past := committed :: store.past }

end Store

/-- The context of a caller: its transactions, innermost first, and the evictions that wait
for the commit. -/
structure Session (Data : Type*) where
  committedKey : Bool := false
  scopes : List (Overlay Data) := []
  hooks : List Key := []

def Session.overlay (session : Session Data) : Overlay Data :=
  session.scopes.headD {}

/-- The state as one caller sees it. -/
structure State (Data : Type*) where
  store : Store Data
  session : Session Data

namespace State

variable (state : State Data)

def view : Table Data :=
  state.session.overlay.view state.store.committed

variable (key : Key)

def save (row : Row Data) : State Data :=
  if state.session.committedKey then state
  else
    { state with
      store := { state.store with
        cache := Function.update state.store.cache key.text (some row) } }

/-- What `Get`, `GetByDigest` and `GetByName` return; without a row, an error. -/
def answer : Option (Row Data) :=
  (state.store.cache key.text).or (state.view.find key)

/-- The state after `Get`, `GetByDigest` and `GetByName`. -/
def get : State Data :=
  match state.store.cache key.text, state.view.find key with
  | none, some row => state.save key row
  | _, _ => state

def evict (keys : List Key) : State Data :=
  { state with store := state.store.evict keys }

/-- `AfterCommit` of an eviction. -/
def afterCommit (keys : List Key) : State Data :=
  match state.session.scopes with
  | [] => state.evict keys
  | _ :: _ =>
    { state with session := { state.session with hooks := state.session.hooks ++ keys } }

/-- A statement outside of a transaction is committed by itself. -/
def apply (write : Write Data) : State Data :=
  match state.session.scopes with
  | [] =>
    { state with
      store := state.store.commit ((({} : Overlay Data).write write).view state.store.committed) }
  | overlay :: outer =>
    { state with session := { state.session with scopes := overlay.write write :: outer } }

/-- `refreshCache`: the keys are evicted at once and read again. -/
def refreshCache (row : Row Data) : State Data :=
  row.keys.foldl get (state.evict row.keys)

/-- The row is read first, and nothing else is done if there is none. -/
def withRow (f : Row Data → State Data → State Data) : State Data :=
  match state.answer key with
  | none => state.get key
  | some row => f row (state.get key)

/-- The manager without a cache is called, and nothing else is done after an error. -/
def delegate (call : Call Data) (f : State Data → State Data) : State Data :=
  match call.write state.view with
  | none => state
  | some write => f (state.apply write)

def call (state : State Data) (call : Call Data) : State Data :=
  match call with
  | .get key => state.get key
  | .create _ => state.delegate call id
  | .update record _ _ => state.delegate call (afterCommit · record.keys)
  | .delete resource number =>
    state.withRow (.id resource number) fun row state =>
      state.delegate call (afterCommit · row.keys)
  | .touch number _ =>
    state.withRow (.id .repository number) fun row state =>
      state.delegate call (afterCommit · row.keys)
  | .addPullCount number _ =>
    state.withRow (.id .repository number) fun row state =>
      state.delegate call (refreshCache · row)
  -- the statement does not report that there is no such row
  | .updatePullTime number _ =>
    state.withRow (.id .artifact number) fun row state =>
      (state.delegate call id).refreshCache row
  | .deleteReference _ _ => state.delegate call id

/-- No row under the key has been written in the transaction. -/
def Untouched : Prop :=
  (∀ row ∈ state.store.committed, key ∈ row.keys → row.ident ∉ state.session.overlay.written) ∧
    ∀ row ∈ state.session.overlay.rows, key ∉ row.keys

instance (state : State Data) (key : Key) : Decidable (state.Untouched key) :=
  @instDecidableAnd _ _ (List.decidableBAll _ _) (List.decidableBAll _ _)

end State

/-! ## Reading rows that the transaction has not written -/

theorem find_view_of_untouched {state : State Data} {key : Key} (h : state.Untouched key) :
    state.view.find key = state.store.committed.find key := by
  have hrows : state.session.overlay.rows.find? (fun row => row.keys.contains key) = none := by
    refine List.find?_eq_none.mpr fun row hrow => ?_
    simpa using h.2 row hrow
  unfold State.view Overlay.view Table.find
  rw [List.find?_append, hrows, Option.or_none, List.find?_filter]
  refine List.find?_congr fun row hrow => ?_
  by_cases hkey : key ∈ row.keys
  · simp [h.1 row hrow hkey]
  · simp [hkey]

end Harbor.Cached
