import Mathlib.Data.Prod.Lex
import Harbor.Data.Latest
import Harbor.Tasks.Model

/-!
# Status events in any order

The status hooks of a job arrive late, more than once and out of order.  Each of
them is applied with `UpdateStatus`, whose second statement overwrites the status
of the row only if the revision of the event is newer, or equal with a greater
status code.  On the pair of status and revision that is a register that only
moves forward in the lexicographic order of revision and code, so the row ends
with the greatest event in every order (`updateStatus_in_any_order`).
-/

namespace Harbor.Tasks

open Harbor.JobService Harbor.Data List

/-- A status change of a task. -/
structure StatusEvent where
  status : String
  revision : ℤ
  deriving DecidableEq, Repr

/-- The order in which events supersede each other. -/
def StatusEvent.rank (event : StatusEvent) : ℤ ×ₗ ℤ :=
  toLex (event.revision, statusCode event.status)

variable {first second : StatusEvent} {events : List StatusEvent}

open StatusEvent

theorem StatusEvent.rank_lt_iff :
    first.rank < second.rank ↔ first.revision < second.revision ∨
      (first.revision = second.revision ∧ statusCode first.status < statusCode second.status) := by
  simp only [rank, Prod.Lex.toLex_lt_toLex]

theorem StatusEvent.rank_eq_iff :
    first.rank = second.rank ↔
      first.revision = second.revision ∧ statusCode first.status = statusCode second.status := by
  simp [rank]

/-! ## The status of a row as a register -/

/-- The event that the row shows. -/
def TaskRow.event (row : TaskRow) : StatusEvent :=
  ⟨row.status, row.statusRevision⟩

/-- The code goes with the text, and the end time is set for a final status only. -/
structure TaskRow.Coherent (row : TaskRow) : Prop where
  code_eq : row.statusCode = JobService.statusCode row.status
  ended_iff : row.endTime.isSome ↔ statusFinal row.status

section UpdateStatus

variable {row : TaskRow}

@[simp] theorem startRun_event (revision : ℤ) : (row.startRun revision).event = row.event := by
  unfold TaskRow.startRun
  split_ifs <;> rfl

theorem TaskRow.Coherent.startRun (hrow : row.Coherent) (revision : ℤ) :
    (row.startRun revision).Coherent := by
  unfold TaskRow.startRun
  split_ifs
  · exact ⟨hrow.code_eq, hrow.ended_iff⟩
  · exact hrow

theorem TaskRow.Coherent.setStatus (hrow : row.Coherent) (event : StatusEvent) (now : ℤ) :
    (row.setStatus event.status event.revision now).Coherent ∧
      (row.setStatus event.status event.revision now).event =
        advance rank row.event event := by
  have hguard : row.event.rank < event.rank ↔
      ((row.statusRevision = event.revision ∧ row.statusCode < JobService.statusCode event.status) ∨
        row.statusRevision < event.revision) := by
    rw [rank_lt_iff, hrow.code_eq, or_comm]
    rfl
  unfold TaskRow.setStatus advance
  rw [if_congr hguard rfl rfl]
  split_ifs with hset hfinal
  · exact ⟨⟨rfl, by simp [hfinal]⟩, rfl⟩
  · exact ⟨⟨rfl, by simp [hfinal]⟩, rfl⟩
  · exact ⟨hrow, rfl⟩

theorem TaskRow.Coherent.updateStatus (hrow : row.Coherent) (event : StatusEvent) (now : ℤ) :
    (row.updateStatus event.status event.revision now).Coherent ∧
      (row.updateStatus event.status event.revision now).event =
        advance rank row.event event := by
  have hset := (hrow.startRun event.revision).setStatus event now
  rw [startRun_event] at hset
  exact hset

theorem createTaskRecord_coherent (id executionID : ℤ) (vendorType : String) (now : ℤ) :
    (createTaskRecord id executionID vendorType now).Coherent :=
  ⟨rfl, by simp only [createTaskRecord]; decide⟩

end UpdateStatus

/-! ## Sequences of events -/

/-- Apply `UpdateStatus` to the events, one after the other, each at its time. -/
def TaskRow.updateAll (row : TaskRow) (events : List (StatusEvent × ℤ)) : TaskRow :=
  events.foldl (fun row event => row.updateStatus event.1.status event.1.revision event.2) row

theorem TaskRow.Coherent.updateAll {row : TaskRow} (hrow : row.Coherent)
    (events : List (StatusEvent × ℤ)) :
    (row.updateAll events).Coherent ∧
      (row.updateAll events).event =
        (events.map Prod.fst).foldl (advance rank) row.event := by
  induction events generalizing row with
  | nil => exact ⟨hrow, rfl⟩
  | cons first rest ih =>
    obtain ⟨hcoherent, hevent⟩ := hrow.updateStatus first.1 first.2
    have hrest := ih hcoherent
    rw [hevent] at hrest
    exact hrest

/-- The events are status changes of one job: their statuses are job statuses, a
revision is a Unix time, and every revision has at most one final status. -/
structure JobEvents (events : List StatusEvent) : Prop where
  valid : ∀ event ∈ events, validateStatus event.status
  revision_nonneg : ∀ event ∈ events, 0 ≤ event.revision
  one_final : ∀ first ∈ events, ∀ second ∈ events, first.revision = second.revision →
    statusFinal first.status → statusFinal second.status → first.status = second.status

theorem status_eq_of_statusCode_eq {first second : String} (hvalid : validateStatus first)
    (hvalid' : validateStatus second) (hcode : statusCode first = statusCode second)
    (hfinal : ¬ statusFinal first) : first = second := by
  obtain ⟨one, rfl⟩ := exists_status_of_validateStatus hvalid
  obtain ⟨two, rfl⟩ := exists_status_of_validateStatus hvalid'
  cases one <;> cases two <;>
    first | rfl | exact absurd hcode (by decide) | exact absurd (by decide) hfinal

/-- The status of a task that was just created, as an event. -/
def createdEvent : StatusEvent := ⟨Status.pending.text, 0⟩

/-- The order tells the events of a job apart, and the first status of the task as well. -/
theorem JobEvents.eq_of_rank_eq (hevents : JobEvents events) :
    ∀ first ∈ createdEvent :: events, ∀ second ∈ createdEvent :: events,
      first.rank = second.rank → first = second := by
  have hvalid : ∀ event ∈ createdEvent :: events, validateStatus event.status := by
    intro event hevent
    rcases mem_cons.mp hevent with rfl | hmem
    · decide
    · exact hevents.valid event hmem
  intro first hfirst second hsecond hrank
  obtain ⟨hrevision, hcode⟩ := rank_eq_iff.mp hrank
  have hstatus : first.status = second.status := by
    by_cases hfinal : statusFinal first.status
    · have hfinal' : statusFinal second.status := by
        simpa [statusFinal, hcode] using hfinal
      have hmem : ∀ event ∈ createdEvent :: events, statusFinal event.status → event ∈ events := by
        intro event hevent hlast
        rcases mem_cons.mp hevent with rfl | hmem
        · exact absurd hlast (by decide)
        · exact hmem
      exact hevents.one_final first (hmem first hfirst hfinal) second
        (hmem second hsecond hfinal') hrevision hfinal hfinal'
    · exact status_eq_of_statusCode_eq (hvalid first hfirst) (hvalid second hsecond) hcode hfinal
  cases first
  cases second
  simp_all

/-- No event of a job is behind the first status of the task. -/
theorem JobEvents.createdEvent_le (hevents : JobEvents events) {event : StatusEvent}
    (hmem : event ∈ events) : createdEvent.rank ≤ event.rank := by
  rw [← not_lt, rank_lt_iff]
  have hrevision := hevents.revision_nonneg event hmem
  have hcode : 0 ≤ statusCode event.status := by
    obtain ⟨status, hstatus⟩ := exists_status_of_validateStatus (hevents.valid event hmem)
    rw [hstatus, statusCode_text]
    cases status <;> decide
  have hpending : statusCode createdEvent.status = 0 := by decide
  have hzero : createdEvent.revision = 0 := rfl
  omega

/-- Whatever the order in which the events of a job are applied to a task, and
however often, the row ends with the status, the code and the revision of the
greatest event, and has an end time iff that status is final. -/
theorem updateStatus_in_any_order (id executionID : ℤ) (vendorType : String) (created : ℤ)
    {events : List (StatusEvent × ℤ)} (hsome : events ≠ [])
    (hevents : JobEvents (events.map Prod.fst)) :
    let row := createTaskRecord id executionID vendorType created
    (∃ top ∈ events.map Prod.fst, (∀ event ∈ events.map Prod.fst, event.rank ≤ top.rank) ∧
      (row.updateAll events).status = top.status ∧
      (row.updateAll events).statusCode = statusCode top.status ∧
      (row.updateAll events).statusRevision = top.revision ∧
      ((row.updateAll events).endTime.isSome ↔ statusFinal top.status)) ∧
    ∀ others : List (StatusEvent × ℤ),
      (∀ event, event ∈ events.map Prod.fst ↔ event ∈ others.map Prod.fst) →
        (row.updateAll others).status = (row.updateAll events).status ∧
        (row.updateAll others).statusCode = (row.updateAll events).statusCode ∧
        (row.updateAll others).statusRevision = (row.updateAll events).statusRevision := by
  intro row
  have hrow : row.Coherent := createTaskRecord_coherent id executionID vendorType created
  have hcreated : row.event = createdEvent := rfl
  obtain ⟨hcoherent, hevent⟩ := hrow.updateAll events
  rw [hcreated] at hevent
  constructor
  · obtain ⟨hfrom, -, hgreatest⟩ :=
      foldl_advance rank (events.map Prod.fst) createdEvent
    rw [← hevent] at hfrom hgreatest
    -- if no event was applied, the first one is the first status itself
    have hmem : (row.updateAll events).event ∈ events.map Prod.fst := by
      rcases hfrom with hsame | hin
      · obtain ⟨first, hfirst⟩ := exists_mem_of_ne_nil _ hsome
        have hfirst' : first.1 ∈ events.map Prod.fst := mem_map_of_mem hfirst
        have hrank : first.1.rank = createdEvent.rank :=
          le_antisymm (hsame ▸ hgreatest first.1 hfirst') (hevents.createdEvent_le hfirst')
        have heq : first.1 = createdEvent :=
          hevents.eq_of_rank_eq _ (mem_cons_of_mem _ hfirst') _ mem_cons_self hrank
        rw [hsame, ← heq]
        exact hfirst'
      · exact hin
    exact ⟨_, hmem, hgreatest, rfl, hcoherent.code_eq, rfl, hcoherent.ended_iff⟩
  · intro others hsame
    obtain ⟨hcoherent', hevent'⟩ := hrow.updateAll others
    rw [hcreated] at hevent'
    have heq : (row.updateAll others).event = (row.updateAll events).event := by
      rw [hevent, hevent']
      exact (foldl_advance_eq hsame hevents.eq_of_rank_eq).symm
    have hstatus : (row.updateAll others).status = (row.updateAll events).status :=
      congrArg status heq
    exact ⟨hstatus, by rw [hcoherent.code_eq, hcoherent'.code_eq, hstatus], congrArg revision heq⟩

theorem updateStatus_in_any_order_retried :
    let row := createTaskRecord 1 1 "GARBAGE_COLLECTION" 5
    let events : List (StatusEvent × ℤ) := [(⟨"Success", 20⟩, 31), (⟨"Running", 7⟩, 32),
      (⟨"Error", 7⟩, 33), (⟨"Running", 20⟩, 34), (⟨"Success", 20⟩, 35)]
    let others : List (StatusEvent × ℤ) := [(⟨"Running", 7⟩, 8), (⟨"Error", 7⟩, 9),
      (⟨"Running", 20⟩, 21), (⟨"Success", 20⟩, 22)]
    (row.updateAll others).status = (row.updateAll events).status := by
  intro row events others
  have hevents : JobEvents (events.map Prod.fst) := ⟨by decide, by decide, by decide⟩
  refine ((updateStatus_in_any_order 1 1 "GARBAGE_COLLECTION" 5 (by decide) hevents).2 others ?_).1
  intro event
  simp only [events, others, map_cons, map_nil, mem_cons, not_mem_nil, or_false]
  tauto

end Harbor.Tasks
