import Harbor.Concurrency.Transition
import Mathlib.Tactic

/-!
# Policies with a single active replication

For such a policy `Start` counts the running executions, creates an execution, and marks it as
error if it has counted any; otherwise it starts the flow.  Two calls that both count before one
of them creates find nothing running, and both start their flows.  If counting and creating were
one statement and an execution ended only after its flow has been started, no two flows would
run, `flows_exclusive`.
-/

namespace Harbor.Replication

open Harbor.Concurrency

/-- How far a call of `Start` is. -/
inductive StartCall
  | idle
  | counted (count : ℕ)
  | created (count : ℕ)
  | started
  | returned

/-- The calls for the policy.  An execution is named by the call that creates it. -/
structure Starts where
  running : List ℕ := []
  calls : ℕ → StartCall := fun _ => .idle

inductive StartStep
  | count (call : ℕ)
  | create (call : ℕ)
  | markError (call : ℕ)
  | startFlow (call : ℕ)
  /-- The next statement fails, and with it the call. -/
  | fail (call : ℕ)
  | finish (call : ℕ)

namespace Starts

variable (state : Starts)

def set (call : ℕ) (phase : StartCall) : Starts :=
  { state with calls := Function.update state.calls call phase }

/-- The execution of the call is not running any more. -/
def setDone (call : ℕ) : Starts :=
  { state with running := state.running.filter (· ≠ call) }

def step : StartStep → Option Starts
  | .count call =>
    match state.calls call with
    | .idle => some (state.set call (.counted state.running.length))
    | _ => none
  | .create call =>
    match state.calls call with
    | .counted count =>
      some { state.set call (.created count) with running := call :: state.running }
    | _ => none
  | .markError call =>
    match state.calls call with
    | .created (_ + 1) => some ((state.setDone call).set call .returned)
    | _ => none
  | .startFlow call =>
    match state.calls call with
    | .created 0 => some (state.set call .started)
    | _ => none
  | .fail call =>
    match state.calls call with
    | .started => none
    | _ => some (state.set call .returned)
  | .finish call => some (state.setDone call)

/-- A flow is started only if no other execution with a flow is running. -/
def FlowAlone : StartStep → Starts → Prop
  | .startFlow _, _ => ∀ other ∈ state.running, state.calls other ≠ .started
  | _, _ => True

/-- Nobody counts while another call has counted zero and not created its execution, and no
execution ends between its creation and the start of its flow. -/
def Serial : StartStep → Starts → Prop
  | .count _, _ => ∀ other, state.calls other ≠ .counted 0
  | .finish call, _ => state.calls call ≠ .created 0
  | _, _ => True

/-- The execution is running, with a flow or before it gets one. -/
def Live (call : ℕ) : Prop :=
  call ∈ state.running ∧ (state.calls call = .created 0 ∨ state.calls call = .started)

/-- At most one execution is live, and none if a call has counted zero. -/
structure AtMostOne : Prop where
  created_running : ∀ call, state.calls call = .created 0 → call ∈ state.running
  counted_unique : ∀ call other, state.calls call = .counted 0 →
    state.calls other = .counted 0 → call = other
  counted_free : ∀ call other, state.calls call = .counted 0 → ¬ state.Live other
  live_unique : ∀ call other, state.Live call → state.Live other → call = other

variable {state} {action : StartStep} {next : Starts}

theorem AtMostOne.flowAlone (h : state.AtMostOne) (hstep : state.step action = some next) :
    state.FlowAlone action next := by
  cases action with
  | startFlow call =>
    intro other hother hstarted
    simp only [step] at hstep
    split at hstep
    · next hcreated =>
      have hsame := h.live_unique other call ⟨hother, .inr hstarted⟩
        ⟨h.created_running call hcreated, .inl hcreated⟩
      rw [hsame, hcreated] at hstarted
      cases hstarted
    · cases hstep
  | _ => trivial

/-- Calls that return and executions that end leave less to be live. -/
theorem AtMostOne.of_fewer (h : state.AtMostOne) (hrunning : next.running ⊆ state.running)
    (hcalls : ∀ call, next.calls call = state.calls call ∨ next.calls call = .returned)
    (hcreated : ∀ call, next.calls call = .created 0 → call ∈ next.running) : next.AtMostOne := by
  have hlive : ∀ call, next.Live call → state.Live call := by
    rintro call ⟨hmem, hphase⟩
    rcases hcalls call with hsame | hreturned
    · exact ⟨hrunning hmem, hsame ▸ hphase⟩
    · simp [hreturned] at hphase
  have hcounted : ∀ call, next.calls call = .counted 0 → state.calls call = .counted 0 := by
    intro call hzero
    rcases hcalls call with hsame | hreturned
    · exact hsame ▸ hzero
    · cases hreturned.symm.trans hzero
  refine ⟨hcreated, fun call other hcall hother => ?_, fun call other hcall hother => ?_, ?_⟩
  · exact h.counted_unique call other (hcounted call hcall) (hcounted other hother)
  · exact h.counted_free call other (hcounted call hcall) (hlive other hother)
  · exact fun call other hcall hother => h.live_unique _ _ (hlive call hcall) (hlive other hother)

theorem AtMostOne.step (h : state.AtMostOne) (hstep : state.step action = some next)
    (hserial : state.Serial action next) : next.AtMostOne := by
  have ⟨hrunning, hunique, hfree, hlive⟩ := h
  cases action with
  | count call =>
    -- zero is counted only if nothing is running
    simp only [Starts.step] at hstep
    split at hstep <;> cases hstep
    constructor <;> simp only [Live, set] at hlive ⊢ <;> grind [Serial, Function.update_apply]
  | create call =>
    -- after zero the new execution is the only one that is live, otherwise it is not live
    simp only [Starts.step] at hstep
    split at hstep <;> cases hstep
    constructor <;> simp only [Live, set] at hfree hlive ⊢ <;> grind [Function.update_apply]
  | markError call =>
    simp only [Starts.step] at hstep
    split at hstep <;> cases hstep
    refine h.of_fewer (List.filter_subset_self _) ?_ ?_ <;>
      simp only [set, setDone] <;> grind [Function.update_apply]
  | startFlow call =>
    simp only [Starts.step] at hstep
    split at hstep <;> cases hstep
    constructor <;> simp only [Live, set] at hfree hlive ⊢ <;> grind [Function.update_apply]
  | fail call =>
    simp only [Starts.step] at hstep
    split at hstep <;> cases hstep
    refine h.of_fewer (List.Subset.refl _) ?_ ?_ <;>
      simp only [set] <;> grind [Function.update_apply]
  | finish call =>
    cases hstep
    refine h.of_fewer (List.filter_subset_self _) (fun _ => .inl rfl) ?_
    simp only [setDone]
    grind [Serial]

end Starts

/-- **Flows exclude each other** in every run in which counting and creating are not interleaved
with other calls and executions do not end before their flows start. -/
theorem flows_exclusive (actions : List StartStep)
    (hserial : EveryStep Starts.step Starts.Serial {} actions) :
    EveryStep Starts.step Starts.FlowAlone {} actions := by
  refine everyStep_of_invariant Starts.AtMostOne (fun state action next h hstep hP => ?_) ?_ hserial
  · exact ⟨h.step hstep hP, h.flowAlone hstep⟩
  · constructor <;> simp [Starts.Live]

/-- The second call finds the first flow running and gives up, the third one starts when the first
has ended. -/
theorem flows_exclusive_threeCalls :
    EveryStep Starts.step Starts.FlowAlone {}
      [.count 0, .create 0, .startFlow 0, .count 1, .create 1, .markError 1, .finish 0,
        .count 2, .create 2, .startFlow 2] := by
  refine flows_exclusive _ ?_
  refine everyStep_cons rfl (fun _ => by rintro ⟨⟩) ?_
  iterate 2 refine everyStep_cons rfl trivial ?_
  refine everyStep_cons rfl (fun other => ?_) ?_
  · rcases other with _ | _ | other <;> rintro ⟨⟩
  iterate 2 refine everyStep_cons rfl trivial ?_
  refine everyStep_cons rfl (by rintro ⟨⟩) ?_
  refine everyStep_cons rfl (fun other => ?_) ?_
  · rcases other with _ | _ | other <;> rintro ⟨⟩
  iterate 2 refine everyStep_cons rfl trivial ?_
  trivial

/-- Two calls count before one of them creates. -/
theorem two_flows :
    ¬ EveryStep Starts.step Starts.FlowAlone {}
      [.count 0, .count 1, .create 0, .create 1, .startFlow 0, .startFlow 1] := by
  intro hrun
  obtain ⟨-, hrun⟩ := hrun _ rfl
  obtain ⟨-, hrun⟩ := hrun _ rfl
  obtain ⟨-, hrun⟩ := hrun _ rfl
  obtain ⟨-, hrun⟩ := hrun _ rfl
  obtain ⟨-, hrun⟩ := hrun _ rfl
  obtain ⟨hlast, -⟩ := hrun _ rfl
  exact hlast 0 (by decide) rfl

end Harbor.Replication
