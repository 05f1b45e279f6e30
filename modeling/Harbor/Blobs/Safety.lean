import Harbor.Blobs.Collector

/-!
# What keeps a blob from a collection

The collection updates a row only with a version it has seen, and every update of
a status makes a new version.  So a blob that is touched after the collection has
seen it cannot be set to deleting any more: every version the collection remembers
is older than the row (`BlobInv.version_lt`).

`BlobInv` is about one blob.  `guarded` says whether the runs under consideration
add no reference to the blob while the collection holds it; then what the
collection holds is not referenced (`BlobInv.unreferenced`).
-/

namespace Harbor.Blobs

open Harbor.Concurrency List Function BlobWorld

/-! ## The history of a blob -/

/-- Where a blob is in a collection. -/
inductive Phase
  | outside
  | candidate
  /-- touched after the snapshot and before it was set to deleting -/
  | escaped
  | swept
  deriving DecidableEq

/-- What an event does to the phase of a blob. -/
def Phase.after (id : ℕ) : Phase → BlobEvent → Phase
  | .outside, .snapshot ids => if id ∈ ids then .candidate else .outside
  | .outside, .deleting other => if other = id then .swept else .outside
  | .candidate, .touched other => if other = id then .escaped else .candidate
  | .candidate, .deleting other => if other = id then .swept else .candidate
  | phase, _ => phase

/-- The phase of a blob after a history, newest first. -/
def phase (id : ℕ) : List BlobEvent → Phase
  | [] => .outside
  | event :: earlier => (phase id earlier).after id event

/-- In this phase of a blob the event may happen. -/
def Phase.Allows (id : ℕ) (phase : Phase) : BlobEvent → Prop
  | .snapshot ids => id ∈ ids → phase = .outside
  | .touched _ => True
  | .deleting other => other = id → phase ≠ .escaped
  | .deleteBlob other _ => other = id → phase = .swept

/-- Every event of the history was allowed when it happened. -/
def Orderly (id : ℕ) : List BlobEvent → Prop
  | [] => True
  | event :: earlier => (phase id earlier).Allows id event ∧ Orderly id earlier

section History

variable {id : ℕ} {log later : List BlobEvent} (event : BlobEvent)

@[simp] theorem phase_cons : phase id (event :: log) = (phase id log).after id event := rfl

@[simp] theorem after_escaped : Phase.after id .escaped event = .escaped := by
  cases event <;> rfl

@[simp] theorem after_swept : Phase.after id .swept event = .swept := by
  cases event <;> rfl

theorem touched_of_after_eq_escaped {phase : Phase} {event : BlobEvent}
    (hbefore : phase ≠ .escaped) (hafter : phase.after id event = .escaped) :
    event = .touched id := by
  cases phase with
  | outside =>
    cases event with
    | snapshot _ | deleting _ => simp only [Phase.after] at hafter; split_ifs at hafter
    | touched _ | deleteBlob _ _ => simp [Phase.after] at hafter
  | candidate =>
    cases event with
    | touched other =>
      simp only [Phase.after] at hafter
      split_ifs at hafter with hother
      rw [hother]
    | snapshot _ | deleteBlob _ _ => simp [Phase.after] at hafter
    | deleting other => simp only [Phase.after] at hafter; split_ifs at hafter
  | escaped => exact absurd rfl hbefore
  | swept => simp at hafter

theorem phase_append_escaped (hphase : phase id log = .escaped) :
    phase id (later ++ log) = .escaped := by
  induction later with
  | nil => exact hphase
  | cons event rest ih => simp [ih]

theorem phase_swept_of_suffix (hphase : phase id log = .swept) (hsuffix : log <:+ later) :
    phase id later = .swept := by
  obtain ⟨newer, rfl⟩ := hsuffix
  induction newer with
  | nil => exact hphase
  | cons event rest ih => simp [ih]

/-- A blob that was seen stays a candidate until it is touched or set to deleting. -/
theorem phase_of_seen {ids : List ℕ} {earlier : List BlobEvent} (hid : id ∈ ids)
    (hseen : phase id earlier = .outside) (hdeleting : .deleting id ∉ later) :
    phase id (later ++ .snapshot ids :: earlier) = .candidate ∨
      phase id (later ++ .snapshot ids :: earlier) = .escaped := by
  induction later with
  | nil => simp [hseen, Phase.after, hid]
  | cons event rest ih =>
    obtain ⟨hhead, hrest⟩ := not_or.mp (mem_cons.not.mp hdeleting)
    rw [cons_append, phase_cons]
    rcases ih hrest with h | h <;> rw [h]
    · cases event with
      | snapshot _ => exact .inl rfl
      | touched other =>
        by_cases hother : other = id
        · exact .inr (by simp [Phase.after, hother])
        · exact .inl (by simp [Phase.after, hother])
      | deleting other =>
        have hother : other ≠ id := fun heq => hhead (by rw [heq])
        exact .inl (by simp [Phase.after, hother])
      | deleteBlob _ _ => exact .inl rfl
    · exact .inr (after_escaped event)

/-- In an orderly history an escaped blob is neither set to deleting nor deleted. -/
theorem Orderly.spares (horderly : Orderly id (later ++ log)) (hphase : phase id log = .escaped) :
    .deleting id ∉ later ∧ ∀ referenced, .deleteBlob id referenced ∉ later := by
  induction later with
  | nil => simp
  | cons event rest ih =>
    obtain ⟨hdeleting, hdelete⟩ := ih horderly.2
    have hallows : (phase id (rest ++ log)).Allows id event := horderly.1
    rw [phase_append_escaped hphase] at hallows
    constructor
    · rintro (_ | ⟨_, hmem⟩)
      · exact hallows rfl rfl
      · exact hdeleting hmem
    · rintro referenced (_ | ⟨_, hmem⟩)
      · exact absurd (hallows rfl) (by decide)
      · exact hdelete referenced hmem

theorem Orderly.of_append (horderly : Orderly id (later ++ log)) : Orderly id log := by
  induction later with
  | nil => exact horderly
  | cons event rest ih => exact ih horderly.2

end History

/-! ## The invariant -/

/-- The collection holds the blob: the row still has a version that the collection has
seen, or a worker has set it to deleting and is not done with it. -/
def BlobWorld.Held (world : BlobWorld) (id : ℕ) : Prop :=
  (∃ version row, (id, version) ∈ world.remembered ∧ world.rows id = some row ∧
    row.version = version) ∨ ∃ worker, world.sweeping worker = some id

/-- The collection has not seen the blob yet. -/
def BlobWorld.Unseen (world : BlobWorld) (id : ℕ) : Prop :=
  ∀ version, (id, version) ∉ world.remembered

/-- The collection has seen the blob with its version. -/
def BlobWorld.Seen (world : BlobWorld) (blob : Blob) : Prop :=
  (blob.id, blob.version) ∈ world.remembered

/-- A worker has set the blob to deleting and may delete it. -/
structure BlobWorld.Sweeps (id : ℕ) (world : BlobWorld) (worker : ℕ) (blob : Blob) : Prop where
  sweeping : world.sweeping worker = some blob.id
  swept : blob.id = id → phase id world.log = .swept

structure BlobInv (guarded : Prop) (id : ℕ) (world : BlobWorld) : Prop where
  id_lt : ∀ version, (id, version) ∈ world.remembered → id < world.nextId
  version_le : ∀ version row, (id, version) ∈ world.remembered → world.rows id = some row →
    version ≤ row.version
  version_lt : phase id world.log = .escaped → ∀ version row, (id, version) ∈ world.remembered →
    world.rows id = some row → version < row.version
  outside : world.Unseen id → phase id world.log = .outside
  orderly : Orderly id world.log
  planned : ∀ plan, world.plan = some plan → ∀ chunk ∈ plan.chunks, ∀ blob ∈ chunk,
    world.Seen blob
  unreferenced : guarded → world.Held id → ¬ world.Referenced id
  deleted : guarded → .deleteBlob id true ∉ world.log

section Invariant

variable {guarded : Prop} {id : ℕ} {world after : BlobWorld}

/-- A row of a blob that the collection has seen does not go back to an old version. -/
def Advances (id : ℕ) (world after : BlobWorld) : Prop :=
  ∀ version, (id, version) ∈ world.remembered → ∀ row', after.rows id = some row' →
    ∃ row, world.rows id = some row ∧ row.version ≤ row'.version

/-- What may be added to the log. -/
def Notes (guarded : Prop) (id : ℕ) (world after : BlobWorld) : BlobEvent → Prop
  | .snapshot _ => False
  | .touched other => other = id → ∀ row row', world.rows id = some row →
      after.rows id = some row' → row.version < row'.version
  | .deleting other => other = id →
      phase id world.log ≠ .escaped ∧ ∃ version, (id, version) ∈ world.remembered
  | .deleteBlob other referenced => other = id →
      phase id world.log = .swept ∧ (guarded → referenced = false)

/-- What every operation does that adds nothing to what the collection has seen. -/
structure Advance (guarded : Prop) (id : ℕ) (world after : BlobWorld) : Prop where
  remembered : after.remembered = world.remembered
  nextId : world.nextId ≤ after.nextId
  plan : after.plan = world.plan
  rows : Advances id world after
  sweeping : ∀ worker, after.sweeping worker = some id → world.Held id
  referenced : guarded → after.Referenced id → world.Held id → world.Referenced id
  log : after.log = world.log ∨
    ∃ event, after.log = event :: world.log ∧ Notes guarded id world after event

/-- A row that has advanced still has a version that was seen only if it had it before. -/
theorem BlobInv.held_of_advance (h : BlobInv guarded id world)
    (hadvance : Advance guarded id world after) (hheld : after.Held id) : world.Held id := by
  rcases hheld with ⟨version, row', hmem, hrow', hversion⟩ | ⟨worker, hworker⟩
  · rw [hadvance.remembered] at hmem
    obtain ⟨row, hrow, hle⟩ := hadvance.rows version hmem row' hrow'
    have hseen := h.version_le version row hmem hrow
    exact .inl ⟨version, row, hmem, hrow, by omega⟩
  · exact hadvance.sweeping worker hworker

theorem Notes.allows {event : BlobEvent} (hnotes : Notes guarded id world after event) :
    (phase id world.log).Allows id event := by
  cases event with
  | snapshot ids => exact hnotes.elim
  | touched other => trivial
  | deleting other | deleteBlob other referenced => exact fun hother => (hnotes hother).1

theorem BlobInv.advance (h : BlobInv guarded id world)
    (hadvance : Advance guarded id world after) : BlobInv guarded id after := by
  have hseen : ∀ {version}, (id, version) ∈ after.remembered → (id, version) ∈ world.remembered :=
    fun hmem => hadvance.remembered ▸ hmem
  constructor
  case id_lt => exact fun version hmem => (h.id_lt version (hseen hmem)).trans_le hadvance.nextId
  case version_le =>
    intro version row' hmem hrow'
    obtain ⟨row, hrow, hle⟩ := hadvance.rows version (hseen hmem) row' hrow'
    exact (h.version_le version row (hseen hmem) hrow).trans hle
  case version_lt =>
    intro hphase version row' hmem hrow'
    obtain ⟨row, hrow, hle⟩ := hadvance.rows version (hseen hmem) row' hrow'
    have hversion := h.version_le version row (hseen hmem) hrow
    by_cases hbefore : phase id world.log = .escaped
    · exact (h.version_lt hbefore version row (hseen hmem) hrow).trans_le hle
    -- the blob has just been touched
    · rcases hadvance.log with hlog | ⟨event, hlog, hnotes⟩
      · exact absurd (hlog ▸ hphase) hbefore
      · rw [hlog, phase_cons] at hphase
        obtain rfl := touched_of_after_eq_escaped hbefore hphase
        exact hversion.trans_lt (hnotes rfl row row' hrow hrow')
  case outside =>
    intro hunseen
    have hbefore : world.Unseen id := fun version hmem =>
      hunseen version (hadvance.remembered ▸ hmem)
    have houtside := h.outside hbefore
    rcases hadvance.log with hlog | ⟨event, hlog, hnotes⟩
    · rw [hlog, houtside]
    · rw [hlog, phase_cons, houtside]
      cases event with
      | snapshot ids => exact hnotes.elim
      | touched other => rfl
      | deleting other =>
        have hother : other ≠ id := fun heq =>
          (hnotes heq).2.elim fun version hmem => hbefore version hmem
        simp [Phase.after, hother]
      | deleteBlob other referenced => rfl
  case orderly =>
    rcases hadvance.log with hlog | ⟨event, hlog, hnotes⟩
    · exact hlog ▸ h.orderly
    · rw [hlog]
      exact ⟨hnotes.allows, h.orderly⟩
  case planned =>
    intro plan hplan chunk hchunk blob hblob
    unfold BlobWorld.Seen
    rw [hadvance.remembered]
    exact h.planned plan (hadvance.plan ▸ hplan) chunk hchunk blob hblob
  case unreferenced =>
    intro hguarded hheld hreferenced
    have hbefore := h.held_of_advance hadvance hheld
    exact h.unreferenced hguarded hbefore (hadvance.referenced hguarded hreferenced hbefore)
  case deleted =>
    intro hguarded hmem
    rcases hadvance.log with hlog | ⟨event, hlog, hnotes⟩
    · exact h.deleted hguarded (hlog ▸ hmem)
    · rw [hlog] at hmem
      rcases mem_cons.mp hmem with rfl | hmem
      · exact absurd ((hnotes rfl).2 hguarded) (by decide)
      · exact h.deleted hguarded hmem

/-- If the other parts of the world stay, only the row has to be looked at. -/
theorem Advance.frame (hremembered : after.remembered = world.remembered)
    (hnextId : world.nextId ≤ after.nextId) (hplan : after.plan = world.plan)
    (hsweeping : after.sweeping = world.sweeping)
    (hreferences : after.projectBlobs ⊆ world.projectBlobs) (hlog : after.log = world.log)
    (hrows : Advances id world after) : Advance guarded id world after where
  remembered := hremembered
  nextId := hnextId
  plan := hplan
  rows := hrows
  sweeping worker hworker := .inr ⟨worker, hsweeping ▸ hworker⟩
  referenced _ := fun ⟨reference, hmem, heq⟩ _ => ⟨reference, hreferences hmem, heq⟩
  log := .inl hlog

theorem advances_of_eq (hrows : after.rows id = world.rows id) : Advances id world after :=
  fun _ _ row' hrow' => ⟨row', hrows ▸ hrow', le_rfl⟩

theorem Advance.refl : Advance guarded id world world :=
  .frame rfl le_rfl rfl rfl (fun _ h => h) rfl (advances_of_eq rfl)

end Invariant

/-! ## Single statements -/

section Statements

variable {guarded : Prop} {id : ℕ} {world : BlobWorld} {actor : Actor} {blob : Blob}
  {target : BlobStatus}

section Note

variable {version : ℕ}

@[simp] theorem noteStatus_rows : (world.noteStatus actor id version target).rows = world.rows := by
  unfold noteStatus
  split <;> rfl

@[simp] theorem noteStatus_nextId :
    (world.noteStatus actor id version target).nextId = world.nextId := by
  unfold noteStatus
  split <;> rfl

end Note

/-- What `UpdateBlobStatus` does: nothing, or the row that it accepts gets a new version. -/
theorem updateStatus_cases (world : BlobWorld) (actor : Actor) (blob : Blob) (target : BlobStatus) :
    world.updateStatus actor blob target = (world, none) ∨
      ∃ row, world.rows blob.id = some row ∧ row.Accepts blob.version target ∧
        world.updateStatus actor blob target =
          ((world.setRow blob.id (row.moveTo target world.clock)).noteStatus actor blob.id
            (row.version + 1) target, some (row.version + 1)) := by
  unfold updateStatus
  cases hrow : world.rows blob.id with
  | none => exact .inl rfl
  | some row =>
    by_cases haccepts : row.Accepts blob.version target
    · exact .inr ⟨row, rfl, haccepts, if_pos haccepts⟩
    · exact .inl (if_neg haccepts)

/-- Apart from bringing a blob back, an update needs the very version. -/
theorem BlobRow.Accepts.version_eq {row : BlobRow} {version : ℕ}
    (haccepts : row.Accepts version target) (htarget : target ≠ .none) : row.version = version := by
  have hversion := haccepts.1
  rwa [if_neg htarget] at hversion

theorem moveTo_rows {row row' : BlobRow} {other : ℕ} (hrow : world.rows other = some row)
    (hrow' : (world.setRow other (row.moveTo target world.clock)).rows id = some row') :
    ∃ before, world.rows id = some before ∧ before.version ≤ row'.version ∧
      (other = id → before.version < row'.version) := by
  by_cases hother : id = other
  · subst hother
    obtain rfl : row.moveTo target world.clock = row' := by
      simpa [setRow] using hrow'
    exact ⟨row, hrow, Nat.le_succ _, fun _ => Nat.lt_succ_self _⟩
  · simp only [setRow, update_of_ne hother] at hrow'
    exact ⟨row', hrow', le_rfl, fun heq => absurd heq.symm hother⟩

theorem advances_moveTo {row : BlobRow} (hrow : world.rows blob.id = some row) (actor : Actor)
    (target : BlobStatus) : Advances id world ((world.setRow blob.id
      (row.moveTo target world.clock)).noteStatus actor blob.id (row.version + 1) target) := by
  intro _ _ row' hrow'
  rw [noteStatus_rows] at hrow'
  obtain ⟨before, hbefore, hle, _⟩ := moveTo_rows hrow hrow'
  exact ⟨before, hbefore, hle⟩

/-- A client that updates a status touches the blob or leaves the log alone. -/
theorem advance_client (world : BlobWorld) (blob : Blob) (target : BlobStatus) :
    Advance guarded id world (world.updateStatus .client blob target).1 := by
  rcases updateStatus_cases world .client blob target with h | ⟨row, hrow, haccepts, h⟩
  · rw [h]
    exact .refl
  · rw [h]
    have hrows := @advances_moveTo id world blob row hrow .client target
    cases target with
    | none =>
      refine ⟨rfl, le_rfl, rfl, hrows, fun worker hworker => .inr ⟨worker, hworker⟩,
        fun _ hreferenced _ => hreferenced, .inr ⟨.touched blob.id, rfl, ?_⟩⟩
      intro hid before row' hbefore hrow'
      obtain ⟨other, hother, _, hlt⟩ := moveTo_rows hrow hrow'
      cases hbefore.symm.trans hother
      exact hlt hid
    | delete | deleting | deleteFailed =>
      exact Advance.frame rfl le_rfl rfl rfl (fun _ h => h) rfl hrows

theorem advance_markDeleteFailed (world : BlobWorld) (worker : ℕ) (blob : Blob) :
    Advance guarded id world (world.updateStatus (.worker worker) blob .deleteFailed).1 := by
  rcases updateStatus_cases world (.worker worker) blob .deleteFailed with
    h | ⟨row, hrow, haccepts, h⟩
  · rw [h]
    exact .refl
  · rw [h]
    refine ⟨rfl, le_rfl, rfl, advances_moveTo hrow (.worker worker) .deleteFailed,
      fun other hother => ?_, fun _ hreferenced _ => hreferenced, .inl rfl⟩
    by_cases heq : other = worker
    · subst heq
      simp [noteStatus] at hother
    · exact .inr ⟨other, by simpa [noteStatus, heq, setRow] using hother⟩

/-- A worker sets to deleting only a blob that still has a version that was seen. -/
theorem advance_deleting (h : BlobInv guarded id world) (worker : ℕ) (hseen : world.Seen blob) :
    Advance guarded id world (world.updateStatus (.worker worker) blob .deleting).1 := by
  rcases updateStatus_cases world (.worker worker) blob .deleting with
    hnone | ⟨row, hrow, haccepts, hsome⟩
  · rw [hnone]
    exact .refl
  · rw [hsome]
    have hversion := haccepts.version_eq (by decide)
    refine ⟨rfl, le_rfl, rfl, advances_moveTo hrow (.worker worker) .deleting, ?_,
      fun _ hreferenced _ => hreferenced, .inr ⟨.deleting blob.id, rfl, ?_⟩⟩
    · intro other hother
      by_cases heq : other = worker
      · subst heq
        obtain rfl : blob.id = id := by simpa [noteStatus] using hother
        exact .inl ⟨blob.version, row, hseen, hrow, hversion⟩
      · exact .inr ⟨other, by simpa [noteStatus, heq, setRow] using hother⟩
    · rintro rfl
      refine ⟨fun hescaped => ?_, blob.version, hseen⟩
      exact absurd hversion (h.version_lt hescaped blob.version row hseen hrow).ne'

/-- The collection marks a blob with a version that it has seen, and sees the new one. -/
theorem BlobInv.marked (h : BlobInv guarded id world) (hseen : world.Seen blob) :
    BlobInv guarded id (world.updateStatus .marker blob .delete).1 := by
  rcases updateStatus_cases world .marker blob .delete with hnone | ⟨row, hrow, haccepts, hsome⟩
  · rw [hnone]
    exact h
  rw [hsome]
  have hversion := haccepts.version_eq (by decide)
  have hseen' : ∀ {version}, (id, version) ∈ (blob.id, row.version + 1) :: world.remembered →
      (id, version) ∈ world.remembered ∨ (blob.id = id ∧ version = row.version + 1) := by
    intro version hmem
    rcases mem_cons.mp hmem with heq | hmem
    · exact .inr ⟨(Prod.mk.inj heq).1.symm, (Prod.mk.inj heq).2⟩
    · exact .inl hmem
  constructor
  case id_lt =>
    intro version hmem
    rcases hseen' hmem with hmem | ⟨rfl, _⟩
    · exact h.id_lt version hmem
    · exact h.id_lt blob.version hseen
  case version_le =>
    intro version row' hmem hrow'
    obtain ⟨before, hbefore, hle, hlt⟩ := moveTo_rows hrow hrow'
    rcases hseen' hmem with hmem | ⟨rfl, rfl⟩
    · exact (h.version_le version before hmem hbefore).trans hle
    · cases hrow.symm.trans hbefore
      exact hlt rfl
  case version_lt =>
    intro hescaped version row' hmem hrow'
    obtain ⟨before, hbefore, hle, _⟩ := moveTo_rows hrow hrow'
    rcases hseen' hmem with hmem | ⟨rfl, _⟩
    · exact (h.version_lt hescaped version before hmem hbefore).trans_le hle
    -- an escaped blob is not marked
    · exact absurd hversion (h.version_lt hescaped blob.version row hseen hrow).ne'
  case outside =>
    intro hunseen
    exact h.outside fun version hmem => hunseen version (mem_cons_of_mem _ hmem)
  case orderly => exact h.orderly
  case planned =>
    intro plan hplan chunk hchunk other hother
    exact mem_cons_of_mem _ (h.planned plan hplan chunk hchunk other hother)
  case unreferenced =>
    intro hguarded hheld
    refine h.unreferenced hguarded ?_
    rcases hheld with ⟨version, row', hmem, hrow', heq⟩ | hworker
    · obtain ⟨before, hbefore, hle, _⟩ := moveTo_rows hrow hrow'
      rcases hseen' hmem with hmem | ⟨rfl, _⟩
      · have hversion_le := h.version_le version before hmem hbefore
        exact .inl ⟨version, before, hmem, hbefore, by omega⟩
      · exact .inl ⟨blob.version, row, hseen, hrow, hversion⟩
    · exact .inr hworker
  case deleted => exact h.deleted

theorem of_mem_uselessBlobs {timeWindow : ℕ} (hblob : blob ∈ world.uselessBlobs timeWindow) :
    blob.id < world.nextId ∧ world.rows blob.id = some blob.toBlobRow ∧
      ¬ world.Referenced blob.id := by
  obtain ⟨hmem, hcondition⟩ := mem_filter.mp hblob
  obtain ⟨other, hother, hfound⟩ := mem_filterMap.mp hmem
  obtain ⟨row, hrow, rfl⟩ := Option.map_eq_some_iff.mp hfound
  exact ⟨mem_range.mp hother, hrow, (of_decide_eq_true hcondition).1⟩

/-- The first snapshot that finds a blob: it is not referenced, and its version is seen. -/
theorem BlobInv.snapshot (h : BlobInv guarded id world) (hunseen : world.Unseen id)
    (timeWindow : ℕ) : BlobInv guarded id (world.snapshot timeWindow).1 := by
  have hseen : ∀ {version}, (id, version) ∈ (world.snapshot timeWindow).1.remembered →
      ∃ blob ∈ world.uselessBlobs timeWindow, blob.id = id ∧ blob.version = version := by
    intro version hmem
    rcases mem_append.mp hmem with hmem | hmem
    · obtain ⟨blob, hblob, heq⟩ := mem_map.mp hmem
      exact ⟨blob, hblob, Prod.mk.inj heq⟩
    · exact absurd hmem (hunseen version)
  have houtside := h.outside hunseen
  have hphase : phase id (world.snapshot timeWindow).1.log =
      if id ∈ (world.uselessBlobs timeWindow).map Blob.id then .candidate else .outside := by
    show (phase id world.log).after id _ = _
    rw [houtside]
    rfl
  constructor
  case id_lt =>
    intro version hmem
    obtain ⟨blob, hblob, rfl, _⟩ := hseen hmem
    exact (of_mem_uselessBlobs hblob).1
  case version_le =>
    intro version row hmem hrow
    obtain ⟨blob, hblob, rfl, rfl⟩ := hseen hmem
    cases (of_mem_uselessBlobs hblob).2.1.symm.trans hrow
    exact le_rfl
  case version_lt =>
    intro hescaped
    rw [hphase] at hescaped
    split_ifs at hescaped
  case outside =>
    intro hstill
    rw [hphase, if_neg]
    intro hmem
    obtain ⟨blob, hblob, rfl⟩ := mem_map.mp hmem
    exact hstill blob.version (mem_append_left _ (mem_map.mpr ⟨blob, hblob, rfl⟩))
  case orderly => exact ⟨fun _ => houtside, h.orderly⟩
  case planned =>
    intro plan hplan chunk hchunk blob hblob
    exact mem_append_right _ (h.planned plan hplan chunk hchunk blob hblob)
  case unreferenced =>
    rintro hguarded (⟨version, _, hmem, _, _⟩ | hworker)
    · obtain ⟨blob, hblob, rfl, _⟩ := hseen hmem
      exact (of_mem_uselessBlobs hblob).2.2
    · exact h.unreferenced hguarded (.inr hworker)
  case deleted =>
    intro hguarded hmem
    rcases mem_cons.mp hmem with heq | hmem
    · cases heq
    · exact h.deleted hguarded hmem

theorem foldl_updateBlob_version (id now : ℕ) (blobs : List Blob) (rows : ℕ → Option BlobRow) :
    (blobs.foldl (BlobWorld.updateBlob now) rows id).map BlobRow.version =
      (rows id).map BlobRow.version := by
  induction blobs generalizing rows with
  | nil => rfl
  | cons blob rest ih =>
    rw [foldl_cons, ih, updateBlob]
    by_cases hid : id = blob.id
    · subst hid
      simp [Option.map_map, comp_def]
    · rw [update_of_ne hid]

theorem advance_updateBlobs (world : BlobWorld) (blobs : List Blob) :
    Advance guarded id world (world.updateBlobs blobs) := by
  refine Advance.frame rfl le_rfl rfl rfl (fun _ h => h) rfl ?_
  intro version _ row' hrow'
  have hversion := foldl_updateBlob_version id world.clock blobs world.rows
  rw [show blobs.foldl (updateBlob world.clock) world.rows id = some row' from hrow',
    Option.map_some] at hversion
  obtain ⟨row, hrow, heq⟩ := Option.map_eq_some_iff.mp hversion.symm
  exact ⟨row, hrow, heq.le⟩

/-- No row that the collection has seen is overwritten when the digest is created. -/
def BlobWorld.Spares (id : ℕ) (world : BlobWorld) (digest : Digest) : Prop :=
  ∀ blob, world.getByDigest digest = some blob → blob.id = id → world.Unseen id

theorem advance_createBlob (h : BlobInv guarded id world) {digest : Digest}
    (hspares : world.Spares id digest) (contentType : String) :
    Advance guarded id world (world.createBlob digest contentType).1 := by
  unfold createBlob
  cases hfound : world.getByDigest digest with
  | some blob =>
    refine Advance.frame rfl le_rfl rfl rfl (fun _ h => h) rfl ?_
    intro version hmem row' hrow'
    have hid : id ≠ blob.id := fun heq => hspares blob hfound heq.symm version hmem
    simp only [setRow, update_of_ne hid] at hrow'
    exact ⟨row', hrow', le_rfl⟩
  | none =>
    refine Advance.frame rfl (Nat.le_succ _) rfl rfl (fun _ h => h) rfl ?_
    intro version hmem row' hrow'
    have hid : id ≠ world.nextId := (h.id_lt version hmem).ne
    simp only [setRow, update_of_ne hid] at hrow'
    exact ⟨row', hrow', le_rfl⟩

/-- A reference may be added to a blob that the collection does not hold. -/
theorem advance_createProjectBlob {other : ℕ} (project : ℕ)
    (hfree : guarded → other = id → ¬ world.Held id) :
    Advance guarded id world (world.createProjectBlob project other) := by
  refine ⟨rfl, le_rfl, rfl, advances_of_eq rfl, fun worker hworker => .inr ⟨worker, hworker⟩, ?_,
    .inl rfl⟩
  rintro hguarded ⟨reference, hmem, heq⟩ hheld
  rcases mem_insert_iff.mp hmem with rfl | hmem
  · exact absurd hheld (hfree hguarded heq)
  · exact ⟨reference, hmem, heq⟩

theorem advance_deleteProjectBlob (world : BlobWorld) (project : ℕ) (ids : List ℕ) :
    Advance guarded id world (world.deleteProjectBlob project ids) :=
  Advance.frame rfl le_rfl rfl rfl (fun _ hmem => mem_of_mem_filter hmem) rfl (advances_of_eq rfl)

theorem advance_release (world : BlobWorld) (worker : ℕ) :
    Advance guarded id world (world.release worker) := by
  refine ⟨rfl, le_rfl, rfl, advances_of_eq rfl, ?_, fun _ hreferenced _ => hreferenced, .inl rfl⟩
  intro other hother
  by_cases heq : other = worker
  · subst heq
    simp [release] at hother
  · exact .inr ⟨other, by simpa [release, heq] using hother⟩

theorem advance_callDeleteBlob (h : BlobInv guarded id world) {worker : ℕ}
    (hsweeps : world.Sweeps id worker blob) :
    Advance guarded id world (world.callDeleteBlob blob) := by
  refine ⟨rfl, le_rfl, rfl, advances_of_eq rfl, fun worker hworker => .inr ⟨worker, hworker⟩,
    fun _ hreferenced _ => hreferenced, .inr ⟨_, rfl, ?_⟩⟩
  intro hid
  refine ⟨hsweeps.swept hid, fun hguarded => decide_eq_false ?_⟩
  rw [hid]
  exact h.unreferenced hguarded (.inr ⟨worker, hid ▸ hsweeps.sweeping⟩)

theorem BlobInv.deleteRow (h : BlobInv guarded id world) (worker : ℕ) (blob : Blob) :
    BlobInv guarded id (world.deleteRow worker blob).1 := by
  have hreleased := h.advance (advance_release world worker)
  unfold BlobWorld.deleteRow
  cases hrow : world.rows blob.id with
  | none => exact hreleased
  | some row =>
    refine hreleased.advance (Advance.frame rfl le_rfl rfl rfl (fun _ h => h) rfl ?_)
    intro version _ row' hrow'
    by_cases hid : id = blob.id
    · subst hid
      simp at hrow'
    · simp only [update_of_ne hid] at hrow'
      exact ⟨row', hrow', le_rfl⟩

end Statements

end Harbor.Blobs
