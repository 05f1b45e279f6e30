import Mathlib.Data.List.Basic
import Mathlib.Logic.Basic

/-!
# Runs of a partial step function

Every system of this development is a step function
`step : State → Action → Option State`: an action names who moves and how a
choice is resolved, and `none` says that the action is not enabled.  A run is
then just a list of actions, `exec step s as` is the state it reaches, and a
property of every interleaving is a property of every list.

`EveryStep` is the one trace predicate used throughout.  As a hypothesis it
restricts the runs under consideration (“no step of the run does …”); as a
conclusion it is a guarantee about every step of a run.
-/

namespace Harbor.Concurrency

variable {State Action : Type*}

/-- The state after the given actions, if each of them is enabled in turn. -/
def exec (step : State → Action → Option State) : State → List Action → Option State
  | state, [] => some state
  | state, action :: rest => (step state action).bind fun next => exec step next rest

/-- Every step of the run satisfies `P before action after`. -/
def EveryStep (step : State → Action → Option State) (P : State → Action → State → Prop) :
    State → List Action → Prop
  | _, [] => True
  | state, action :: rest =>
    ∀ next, step state action = some next →
      P state action next ∧ EveryStep step P next rest

variable {step : State → Action → Option State} {P Q : State → Action → State → Prop}
  {state final : State} {action : Action} {rest actions : List Action}

@[simp] theorem exec_nil (state : State) : exec step state [] = some state := rfl

@[simp] theorem exec_cons (state : State) (action : Action) (rest : List Action) :
    exec step state (action :: rest) =
      (step state action).bind fun next => exec step next rest := rfl

theorem exec_cons_eq_some (hrun : exec step state (action :: rest) = some final) :
    ∃ next, step state action = some next ∧ exec step next rest = some final := by
  simpa [Option.bind_eq_some_iff] using hrun

/-- **Invariant rule.**  An invariant kept by every step that satisfies `P`
holds at the end of every run all of whose steps satisfy `P`. -/
theorem exec_invariant (Inv : State → Prop)
    (hkeep : ∀ state action next, Inv state → step state action = some next →
      P state action next → Inv next)
    {state final : State} {actions : List Action} (hinit : Inv state)
    (hsteps : EveryStep step P state actions)
    (hrun : exec step state actions = some final) : Inv final := by
  induction actions generalizing state with
  | nil =>
    obtain rfl : state = final := by simpa using hrun
    exact hinit
  | cons action rest ih =>
    obtain ⟨next, hstep, hrest⟩ := exec_cons_eq_some hrun
    obtain ⟨hP, htail⟩ := hsteps next hstep
    exact ih (hkeep _ _ _ hinit hstep hP) htail hrest

/-- **Step rule.**  What every step from an invariant state satisfies, every
step of the run satisfies. -/
theorem everyStep_of_invariant (Inv : State → Prop)
    (hkeep : ∀ state action next, Inv state → step state action = some next →
      P state action next → Inv next ∧ Q state action next) (hinit : Inv state)
    (hsteps : EveryStep step P state actions) : EveryStep step Q state actions := by
  induction actions generalizing state with
  | nil => trivial
  | cons action rest ih =>
    intro next hstep
    obtain ⟨hP, htail⟩ := hsteps next hstep
    obtain ⟨hnext, hQ⟩ := hkeep _ _ _ hinit hstep hP
    exact ⟨hQ, ih hnext htail⟩

theorem everyStep_cons {next : State} (hstep : step state action = some next)
    (hP : P state action next) (hrest : EveryStep step P next rest) :
    EveryStep step P state (action :: rest) := by
  intro other hother
  cases hstep.symm.trans hother
  exact ⟨hP, hrest⟩

theorem EveryStep.mono (h : EveryStep step P state actions)
    (hPQ : ∀ before action after, P before action after → Q before action after) :
    EveryStep step Q state actions :=
  everyStep_of_invariant (fun _ => True) (fun _ _ _ _ _ hP => ⟨trivial, hPQ _ _ _ hP⟩) trivial h

theorem EveryStep.and (hP : EveryStep step P state actions) (hQ : EveryStep step Q state actions) :
    EveryStep step (fun before action after => P before action after ∧ Q before action after)
      state actions := by
  induction actions generalizing state with
  | nil => trivial
  | cons action rest ih =>
    intro next hstep
    obtain ⟨hPstep, hPtail⟩ := hP next hstep
    obtain ⟨hQstep, hQtail⟩ := hQ next hstep
    exact ⟨⟨hPstep, hQstep⟩, ih hPtail hQtail⟩

theorem everyStep_congr (hPQ : ∀ action ∈ actions, ∀ before after, step before action = some after →
      (P before action after ↔ Q before action after)) :
    EveryStep step P state actions ↔ EveryStep step Q state actions := by
  induction actions generalizing state with
  | nil => exact Iff.rfl
  | cons action rest ih =>
    refine forall_congr' fun next => imp_congr_right fun hstep => ?_
    exact and_congr (hPQ action List.mem_cons_self _ _ hstep)
      (ih fun other hother => hPQ other (List.mem_cons_of_mem _ hother))

/-- A restriction on the actions alone can be read off their list. -/
theorem everyStep_of_forall_mem {P : Action → Prop} (hactions : ∀ action ∈ actions, P action)
    (state : State) : EveryStep step (fun _ action _ => P action) state actions := by
  induction actions generalizing state with
  | nil => trivial
  | cons action rest ih =>
    exact fun next _ => ⟨hactions action (by simp),
      ih (fun other hother => hactions other (by simp [hother])) next⟩

theorem everyStep_true (state : State) (actions : List Action) :
    EveryStep step (fun _ _ _ => True) state actions :=
  everyStep_of_forall_mem (fun _ _ => trivial) state

/-- **Termination rule.**  If a weight gets smaller with every step, a run takes at most as
many steps as the weight at its start. -/
theorem length_le_of_decreasing (weight : State → ℕ)
    (hstep : ∀ state action next, step state action = some next → weight next < weight state)
    (hrun : exec step state actions = some final) :
    actions.length + weight final ≤ weight state := by
  induction actions generalizing state with
  | nil =>
    obtain rfl : state = final := by simpa using hrun
    simp
  | cons action rest ih =>
    obtain ⟨next, hnext, hrest⟩ := exec_cons_eq_some hrun
    have hsmaller := hstep state action next hnext
    have htail := ih hrest
    rw [List.length_cons]
    omega

/-- **Trap rule.**  If a step without `P` leads into a trap, then every step of a run that
does not end in the trap satisfies `P`. -/
theorem everyStep_of_not_trapped (Inv Trap : State → Prop)
    (hinv : ∀ state action next, Inv state → step state action = some next → Inv next)
    (htrap : ∀ state action next, Trap state → step state action = some next → Trap next)
    (henter : ∀ state action next, Inv state → step state action = some next →
      ¬ P state action next → Trap next) (hinit : Inv state)
    (hrun : exec step state actions = some final) (hfinal : ¬ Trap final) :
    EveryStep step P state actions := by
  induction actions generalizing state with
  | nil => trivial
  | cons action rest ih =>
    intro next hstep
    have hrest : exec step next rest = some final := by simpa [hstep] using hrun
    refine ⟨?_, ih (hinv _ _ _ hinit hstep) hrest⟩
    by_contra hP
    have htrapped : Trap final := exec_invariant Trap
      (fun state action next htrapped hstep _ => htrap state action next htrapped hstep)
      (henter _ _ _ hinit hstep hP) (everyStep_true next rest) hrest
    exact hfinal htrapped

/-- The actions lead from one state to another, and every step satisfies `P`. -/
def Leads (step : State → Action → Option State) (P : State → Action → State → Prop)
    (state : State) (actions : List Action) (final : State) : Prop :=
  exec step state actions = some final ∧ EveryStep step P state actions

theorem Leads.nil (state : State) : Leads step P state [] state := ⟨rfl, trivial⟩

theorem Leads.cons {next : State} (hstep : step state action = some next) (hP : P state action next)
    (hrest : Leads step P next rest final) : Leads step P state (action :: rest) final :=
  ⟨by simp [hstep, hrest.1], everyStep_cons hstep hP hrest.2⟩

theorem Leads.append {mid : State} {first second : List Action}
    (hfirst : Leads step P state first mid) (hsecond : Leads step P mid second final) :
    Leads step P state (first ++ second) final := by
  induction first generalizing state with
  | nil =>
    obtain rfl : state = mid := by simpa using hfirst.1
    exact hsecond
  | cons action rest ih =>
    obtain ⟨next, hstep, hrest⟩ := exec_cons_eq_some hfirst.1
    obtain ⟨hP, htail⟩ := hfirst.2 next hstep
    exact Leads.cons hstep hP (ih ⟨hrest, htail⟩)

end Harbor.Concurrency
