import Harbor.Cached.Managers
import Harbor.Concurrency.Transition

/-!
# Reading one's own writes

A request in a transaction calls the cached managers.  The same calls to the managers without
a cache make the same writes, but the answers differ: a row that is in the cache when the
transaction writes it is still read from there, since it is evicted only after the commit.
-/

namespace Harbor.Cached

open Concurrency

variable {Data : Type*}

/-- What a call to the managers without a cache returns; only the reads return a row. -/
def Overlay.reply (overlay : Overlay Data) (committed : Table Data) :
    Call Data → Option (Row Data)
  | .get key => (overlay.view committed).find key
  | _ => none

/-- The replies to calls one after the other. -/
def Overlay.replies (committed : Table Data) : Overlay Data → List (Call Data) →
    List (Option (Row Data))
  | _, [] => []
  | overlay, call :: rest =>
    overlay.reply committed call :: (overlay.call committed call).replies committed rest

namespace State

def reply (state : State Data) : Call Data → Option (Row Data)
  | .get key => state.answer key
  | _ => none

def replies : State Data → List (Call Data) → List (Option (Row Data))
  | _, [] => []
  | state, call :: rest => state.reply call :: (state.call call).replies rest

def step (state : State Data) (call : Call Data) : Option (State Data) :=
  some (state.call call)

/-- The cache agrees with the committed rows. -/
def Consistent (committed : Table Data) (cache : String → Option (Row Data)) : Prop :=
  ∀ key row, cache key.text = some row → committed.find key = some row

/-- A request at the start of its transaction. -/
def request (committed : Table Data) (cache : String → Option (Row Data)) : State Data where
  store := { committed, past := [committed], cache }
  session := { committedKey := true, scopes := [{}] }

/-- A row that is read from the cache has not been written in the transaction. -/
def Unshadowed (before : State Data) : Call Data → Prop
  | .get key => before.store.cache key.text = none ∨ before.Untouched key
  | _ => True

end State

/-! ## The same writes as without a cache -/

/-- A request with the writes of the overlay. -/
structure InRequest (committed : Table Data) (overlay : Overlay Data) (state : State Data) :
    Prop where
  committedKey : state.session.committedKey = true
  scopes : ∃ outer, state.session.scopes = overlay :: outer
  table : state.store.committed = committed
  consistent : State.Consistent committed state.store.cache

namespace InRequest

variable {committed : Table Data} {overlay : Overlay Data} {state : State Data}

variable (h : InRequest committed overlay state)
include h

theorem view : state.view = overlay.view committed := by
  obtain ⟨outer, hscopes⟩ := h.scopes
  rw [State.view, Session.overlay, hscopes, h.table]
  rfl

theorem get (key : Key) : state.get key = state := by
  unfold State.get State.save
  split
  · exact if_pos h.committedKey
  · rfl

theorem foldl_get (keys : List Key) : keys.foldl State.get state = state := by
  induction keys with
  | nil => rfl
  | cons key rest ih => rw [List.foldl_cons, h.get, ih]

theorem evict (keys : List Key) : InRequest committed overlay (state.evict keys) := by
  refine ⟨h.committedKey, h.scopes, h.table, fun key row hcached => h.consistent key row ?_⟩
  simp only [State.evict, Store.evict] at hcached
  split_ifs at hcached
  exact hcached

theorem afterCommit (keys : List Key) : InRequest committed overlay (state.afterCommit keys) := by
  obtain ⟨outer, hscopes⟩ := h.scopes
  unfold State.afterCommit
  rw [hscopes]
  exact ⟨h.committedKey, ⟨outer, hscopes⟩, h.table, h.consistent⟩

theorem apply (write : Write Data) :
    InRequest committed (overlay.write write) (state.apply write) := by
  obtain ⟨outer, hscopes⟩ := h.scopes
  unfold State.apply
  rw [hscopes]
  exact ⟨h.committedKey, ⟨outer, rfl⟩, h.table, h.consistent⟩

theorem refreshCache (row : Row Data) : InRequest committed overlay (state.refreshCache row) := by
  have hevicted := h.evict row.keys
  rw [State.refreshCache, hevicted.foldl_get]
  exact hevicted

theorem delegate (call : Call Data) {f : State Data → State Data}
    (hf : ∀ {overlay state}, InRequest committed overlay state →
      InRequest committed overlay (f state)) :
    InRequest committed (overlay.call committed call) (state.delegate call f) := by
  unfold State.delegate Overlay.call
  rw [h.view]
  cases call.write (overlay.view committed) with
  | none => exact h
  | some write => exact hf (h.apply write)

/-- A call that reads its row first writes nothing if there is no such row. -/
theorem withRow {call : Call Data} {key : Key} {f : Row Data → State Data → State Data}
    (hcall : (overlay.view committed).find key = none →
      call.write (overlay.view committed) = none)
    (hf : ∀ row, InRequest committed (overlay.call committed call) (f row state)) :
    InRequest committed (overlay.call committed call) (state.withRow key f) := by
  unfold State.withRow
  rw [h.get]
  cases hanswer : state.answer key with
  | none =>
    have hnone : (overlay.view committed).find key = none := by
      rw [← h.view]
      exact (Option.or_eq_none_iff.mp hanswer).2
    have hsame : overlay.call committed call = overlay := by
      rw [Overlay.call, hcall hnone]
    rw [hsame]
    exact h
  | some row => exact hf row

theorem call (call : Call Data) :
    InRequest committed (overlay.call committed call) (state.call call) := by
  cases call with
  | get key =>
    show InRequest committed overlay (state.get key)
    rw [h.get]
    exact h
  | create row => exact h.delegate _ id
  | update record renames assign => exact h.delegate _ (·.afterCommit _)
  | delete resource number | touch number assign =>
    rw [State.call]
    refine h.withRow ?_ ?_
    · exact fun hnone => Option.map_eq_none_iff.mpr hnone
    · exact fun row => h.delegate _ (·.afterCommit _)
  | addPullCount number assign =>
    rw [State.call]
    refine h.withRow ?_ ?_
    · exact fun hnone => Option.map_eq_none_iff.mpr hnone
    · exact fun row => h.delegate _ (·.refreshCache _)
  | updatePullTime number assign =>
    rw [State.call]
    refine h.withRow ?_ ?_
    · exact fun hnone => Option.map_eq_none_iff.mpr hnone
    · exact fun row => (h.delegate _ id).refreshCache _
  | deleteReference number assign => exact h.delegate _ id

/-! ## The same answers -/

theorem reply {call : Call Data} (hcall : state.Unshadowed call) :
    state.reply call = overlay.reply committed call := by
  cases call with
  | get key =>
    show state.answer key = (overlay.view committed).find key
    rw [State.answer, ← h.view]
    cases hcached : state.store.cache key.text with
    | none => rfl
    | some row =>
      have huntouched := hcall.resolve_left (by rw [hcached]; exact Option.some_ne_none row)
      rw [find_view_of_untouched huntouched, h.table, h.consistent key row hcached]
      rfl
  | _ => rfl

theorem replies {calls : List (Call Data)}
    (hcalls : EveryStep State.step (fun before call _ => before.Unshadowed call) state calls) :
    state.replies calls = overlay.replies committed calls := by
  induction calls generalizing overlay state with
  | nil => rfl
  | cons call rest ih =>
    -- the writes are the same even if an answer comes from the cache
    obtain ⟨hcall, hrest⟩ := hcalls _ rfl
    rw [State.replies, Overlay.replies, h.reply hcall, ih (h.call call) hrest]

end InRequest

theorem inRequest_request {committed : Table Data} {cache : String → Option (Row Data)}
    (hcache : State.Consistent committed cache) :
    InRequest committed {} (State.request committed cache) :=
  ⟨rfl, ⟨[], rfl⟩, rfl, hcache⟩

/-- **A request reads its own writes**, if it never reads a row from the cache that it has
written. -/
theorem request_reads_own_writes (committed : Table Data) (cache : String → Option (Row Data))
    (hcache : State.Consistent committed cache) (calls : List (Call Data))
    (hcalls : EveryStep State.step (fun before call _ => before.Unshadowed call)
      (State.request committed cache) calls) :
    (State.request committed cache).replies calls = Overlay.replies committed {} calls :=
  (inRequest_request hcache).replies hcalls

/-- A repository with its pull count. -/
def nginx : Row ℕ where
  id := 1
  name := .repository "library/nginx"
  data := 0

/-- The cache after the repository has been read by its number. -/
def nginxCached : String → Option (Row ℕ) :=
  Function.update (fun _ => none) (Key.id .repository 1).text (some nginx)

theorem consistent_nginxCached : State.Consistent [nginx] nginxCached := by
  intro key row hcached
  by_cases hkey : key = .id .repository 1
  · subst hkey
    rw [nginxCached, Function.update_self] at hcached
    cases hcached
    decide
  · have htext : key.text ≠ (Key.id .repository 1).text := fun h => hkey (Key.text_injective h)
    rw [nginxCached, Function.update_of_ne htext] at hcached
    cases hcached

/-- After the update the repository is read by its name, which is not in the cache. -/
theorem request_reads_own_writes_by_name :
    (State.request [nginx] nginxCached).replies
        [.get (.id .repository 1), .update nginx false (fun _ => 5), .get (.name nginx.name)] =
      Overlay.replies [nginx] {}
        [.get (.id .repository 1), .update nginx false (fun _ => 5), .get (.name nginx.name)] :=
  request_reads_own_writes _ _ consistent_nginxCached _
    (everyStep_cons rfl (.inr (by decide +kernel)) (everyStep_cons rfl trivial
      (everyStep_cons rfl (.inl (by decide +kernel)) trivial)))

/-- After the update the repository is read by its number: the row of before is returned from
the cache. -/
theorem old_row_read_after_update :
    State.Consistent [nginx] nginxCached ∧
      (State.request [nginx] nginxCached).replies
        [.update nginx false (fun _ => 5), .get (.id .repository 1)] = [none, some nginx] ∧
      Overlay.replies [nginx] {} [.update nginx false (fun _ => 5), .get (.id .repository 1)] =
        [none, some { nginx with data := 5 }] :=
  ⟨consistent_nginxCached, by decide +kernel, by decide +kernel⟩

end Harbor.Cached
