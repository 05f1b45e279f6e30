import Harbor.Concurrency.Transition
import Mathlib.Tactic

/-!
# Which node enqueues

`shouldEnqueue` of the enqueuer: the nodes ask, under a lock in Redis that expires after 30
seconds, whether the last round is more than two minutes ago.  The nodes have different IDs and
equal clocks.
-/

namespace Harbor.Period

open Harbor.Concurrency

/-- Where a node is in `shouldEnqueue`: the command it sends or the time it reads next. -/
inductive Phase
  | acquiring
  | reading
  | comparing (lastEnqueue : ℤ)
  | due
  | writing (now : ℤ)
  | releasing
  | deleting

/-- The node relies on having the lock. -/
@[grind] def Phase.Critical (phase : Phase) : Prop := phase ≠ .acquiring ∧ phase ≠ .releasing

/-- The keys in Redis, the clock, the nodes, and the times of the rounds, latest first. -/
structure Election where
  lockerID : Option ℕ
  expires : ℤ
  lastEnqueue : Option ℤ
  now : ℤ
  phase : ℕ → Phase
  rounds : List ℤ

/-- A command may fail, or be executed and lose its reply. -/
inductive ElectionAction
  | tick (seconds : ℕ)
  | advance (node : ℕ) (executed replied : Bool)

namespace Election

variable {state next start final : Election} {actions : List ElectionAction} {node : ℕ}

@[grind] def goto (state : Election) (node : ℕ) (phase : Phase) : Election :=
  { state with phase := fun other => if other = node then phase else state.phase other }

/-- A command of `AcquireLock`, `shouldEnqueue` or `ReleaseLock`, or a look at the clock. -/
def step (state : Election) : ElectionAction → Option Election
  | .tick seconds =>
    some { state with
      now := state.now + seconds
      lockerID := if state.now + seconds < state.expires then state.lockerID else none }
  | .advance node executed replied =>
    match state.phase node with
    | .acquiring =>
      if executed ∧ state.lockerID = none then
        some { state.goto node (if replied then .reading else .acquiring) with
          lockerID := some node
          expires := state.now + 30 }
      else state
    | .reading =>
      -- a failed read counts like a missing entry
      state.goto node (if replied then state.lastEnqueue.elim .due .comparing else .due)
    | .comparing last => state.goto node (if last < state.now - 120 then .due else .releasing)
    | .due => state.goto node (.writing state.now)
    | .writing now =>
      some { state.goto node .releasing with
        lastEnqueue := if executed then some now else state.lastEnqueue
        rounds := now :: state.rounds }
    | .releasing =>
      state.goto node (if replied ∧ state.lockerID = some node then .deleting else .acquiring)
    | .deleting =>
      some { state.goto node .acquiring with
        lockerID := if executed then none else state.lockerID }

/-- What a node knows about the last round. -/
@[grind] def Knows (state : Election) : Phase → Prop
  | .comparing found => state.lastEnqueue = some found
  | .due => ∀ last, state.lastEnqueue = some last → last + 120 < state.now
  | .writing stamp => ∀ last, state.lastEnqueue = some last → last + 120 < stamp
  | _ => True

@[grind cases] structure Elected (state : Election) : Prop where
  held : ∀ node, (state.phase node).Critical → state.lockerID = some node
  knows : ∀ node, state.Knows (state.phase node)
  latest : ∀ round ∈ state.rounds, ∃ last, state.lastEnqueue = some last ∧ round ≤ last
  apart : state.rounds.Pairwise fun later earlier => earlier + 120 < later

/-- The lock does not expire under a node that relies on it, and the commands that read and
write the time of the last round succeed. -/
def Undisturbed (state : Election) : ElectionAction → Election → Prop
  | .tick _, next => ∀ node, (state.phase node).Critical → next.now < state.expires
  | .advance node executed replied, _ =>
    (state.phase node = .reading → replied) ∧ ∀ now, state.phase node = .writing now → executed

/-- A node that leaves the keys alone may go where it has the lock and the knowledge to be. -/
theorem Elected.goto (h : Elected state) {phase : Phase}
    (hheld : phase.Critical → state.lockerID = some node) (hknows : state.Knows phase) :
    Elected (state.goto node phase) := by
  refine ⟨fun other hother => ?_, fun other => ?_, h.latest, h.apart⟩
  · by_cases hsame : other = node
    · exact hsame ▸ hheld (by simpa [Election.goto, hsame] using hother)
    · exact h.held other (by simpa [Election.goto, hsame] using hother)
  · change state.Knows (if other = node then phase else state.phase other)
    split
    · exact hknows
    · exact h.knows other

theorem Elected.tick {seconds : ℕ} (h : Elected state)
    (hstep : state.step (.tick seconds) = some next)
    (hcalm : Undisturbed state (.tick seconds) next) : Elected next := by
  obtain rfl := Option.some.inj hstep
  refine ⟨fun node hnode => ?_, fun node => ?_, h.latest, h.apart⟩
  · exact (if_pos (hcalm node hnode)).trans (h.held node hnode)
  · have hknows := h.knows node
    cases hphase : state.phase node <;> simp only [hphase] at hknows ⊢ <;> grind

theorem Elected.advance {executed replied : Bool} (h : Elected state)
    (hstep : state.step (.advance node executed replied) = some next)
    (hcalm : Undisturbed state (.advance node executed replied) next) : Elected next := by
  have hheld := h.held node
  have hknows := h.knows node
  unfold step at hstep
  cases hphase : state.phase node <;> simp only [hphase, Undisturbed] at hstep hcalm hheld hknows
  case acquiring =>
    split at hstep
    all_goals obtain rfl := Option.some.inj hstep
    · refine ⟨?_, ?_, h.latest, h.apart⟩ <;> grind
    · exact h
  all_goals obtain rfl := Option.some.inj hstep
  case reading =>
    obtain rfl : replied = true := by simpa using hcalm
    refine h.goto (fun _ => hheld (by simp [Phase.Critical])) ?_
    cases hlast : state.lastEnqueue <;> simp [Knows, hlast]
  case comparing | due =>
    exact h.goto (fun _ => hheld (by simp [Phase.Critical])) (by grind)
  case writing stamp =>
    obtain rfl : executed = true := by simpa using hcalm
    have hbefore : ∀ round ∈ state.rounds, round + 120 < stamp := by grind
    -- no other node relies on the time that is overwritten
    refine ⟨?_, ?_, ?_, h.apart.cons hbefore⟩ <;> grind
  case releasing => exact h.goto (by grind) (by grind)
  case deleting =>
    refine ⟨?_, ?_, h.latest, h.apart⟩ <;> grind

/-- **Rounds are more than two minutes apart** in every undisturbed run. -/
theorem rounds_apart (hidle : ∀ node, start.phase node = .acquiring) (hnone : start.rounds = [])
    (hcalm : EveryStep step Undisturbed start actions)
    (hrun : exec step start actions = some final) :
    final.rounds.Pairwise fun later earlier => earlier + 120 < later := by
  have hstart : Elected start := by constructor <;> simp [hidle, hnone, Knows, Phase.Critical]
  refine (exec_invariant Elected (fun _ action _ h hstep hstill => ?_) hstart hcalm hrun).apart
  cases action with
  | tick seconds => exact h.tick hstep hstill
  | advance node executed replied => exact h.advance hstep hstill

theorem rounds_apart_two_nodes :
    ∃ actions final, exec step ⟨none, 0, none, 0, fun _ => .acquiring, []⟩ actions = some final ∧
      final.rounds = [130, 0] ∧
      final.rounds.Pairwise fun later earlier => earlier + 120 < later := by
  have hrun : exec step ⟨none, 0, none, 0, fun _ => .acquiring, []⟩
    (List.replicate 4 (.advance 0 true true) ++
      .tick 130 :: List.replicate 5 (.advance 1 true true)) = some _ := rfl
  refine ⟨_, _, hrun, rfl, rounds_apart (fun _ => rfl) rfl ?_ hrun⟩
  simp [EveryStep, step, goto, Undisturbed, Phase.Critical, List.replicate]
  grind

end Election
end Harbor.Period
