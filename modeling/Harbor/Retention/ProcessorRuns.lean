import Harbor.Retention.Processor
import Mathlib.Tactic

/-!
# Runs of the OR processor

What a single move of a goroutine can be is said once, by `Moves`.  From it come
an invariant that ties the goroutines to the channels (`ProcInv`), a weight that
every move makes smaller, and the fact that some move is possible until `Process`
has returned; so `Process` returns in every run.

An error travels through a channel of its own.  Once all rules are done and the
channel of the results is closed, the collector may find both ready: the closed
channel, upon which it leaves, and an error.  `error_reported_iff` says that an
error is reported, and nothing is performed, unless the collector leaves while the
only errors are still in the channel.  After it comes a run in which that happens.
-/

namespace Harbor.Retention

open Harbor.Concurrency List Processor ProcState Channel

variable {p : Processor} {artifacts : List Candidate} {state next : ProcState} {action : ProcAction}

/-! ## Moves -/

/-- What a move is. -/
inductive Moves (p : Processor) (artifacts : List Candidate) (state : ProcState) :
    ProcAction → ProcState → Prop
  | evaluate {index : ℕ} {rule : Rule}
      (hrule : state.goroutines[index]? = some ⟨rule, .evaluating⟩) :
      Moves p artifacts state (.evaluate index)
        (state.setStage index rule (.sending (rule.outcome artifacts)))
  | sendResult {index : ℕ} {rule : Rule} {item : ChanItem} {resChan : Channel ChanItem 1}
      (hrule : state.goroutines[index]? = some ⟨rule, .sending (.ok item)⟩)
      (hsend : state.resChan.send item = some resChan) :
      Moves p artifacts state (.send index) { state.setStage index rule .leaving with resChan }
  | sendError {index : ℕ} {rule : Rule} {err : String} {errChan : Channel String 1}
      (hrule : state.goroutines[index]? = some ⟨rule, .sending (.error err)⟩)
      (hsend : state.errChan.send err = some errChan) :
      Moves p artifacts state (.send index) { state.setStage index rule .leaving with errChan }
  | wgDone {index : ℕ} {rule : Rule} (hrule : state.goroutines[index]? = some ⟨rule, .leaving⟩) :
      Moves p artifacts state (.wgDone index)
        { state.setStage index rule .finished with wg := state.wg - 1 }
  | receiveResult {item : ChanItem} {resChan : Channel ChanItem 1}
      (hcollector : state.collector = .receiving)
      (hreceive : state.resChan.receive? = some (item, resChan)) :
      Moves p artifacts state .receiveResult { state.merge item with resChan }
  | receiveError {err : String} {errChan : Channel String 1}
      (hcollector : state.collector = .receiving)
      (hreceive : state.errChan.receive? = some (err, errChan)) :
      Moves p artifacts state .receiveError { state.collectErr err with errChan }
  | receiveClosed (hcollector : state.collector = .receiving) (hdrained : state.resChan.drained) :
      Moves p artifacts state .receiveClosed { state with collector := .leaving }
  | signal {done : Channel Unit 1} (hcollector : state.collector = .leaving)
      (hsend : state.done.send () = some done) :
      Moves p artifacts state .signal { state with collector := .finished, done }
  | wait (hmain : state.main = .waiting) (hwg : state.wg = 0) :
      Moves p artifacts state .wait { state with main := .closing }
  | close (hmain : state.main = .closing) :
      Moves p artifacts state .close
        { state with resChan := state.resChan.close, main := .joining }
  | join {done : Channel Unit 1} (hmain : state.main = .joining)
      (hreceive : state.done.receive? = some ((), done)) :
      Moves p artifacts state .join { state with done, main := state.afterJoin }
  | perform {name : String} {candidates : List Candidate} {remaining : List String}
      {results : List Result} (hmain : state.main = .performing remaining results)
      (hname : name ∈ remaining) (hcandidates : candidates.Perm (state.candidatesOf name)) :
      Moves p artifacts state (.perform name candidates)
        { state with
          main := .performing (remaining.erase name)
            (results ++ (p.performAction name candidates).1)
          performed := state.performed ++ (p.performAction name candidates).2 }
  | finish {results : List Result} (hmain : state.main = .performing [] results) :
      Moves p artifacts state .finish { state with main := .returned (.ok results) }

variable {index : ℕ} {rule : Rule} {stage before : Stage} {goroutines : List Goroutine}
  {g : Goroutine} {after : Stage} {actions : List ProcAction} {final : ProcState}

theorem moves_of_step (hstep : p.step artifacts state action = some next) :
    Moves p artifacts state action next := by
  cases action with
  | evaluate | wgDone | receiveResult | receiveError | close | join | finish =>
    simp only [step] at hstep
    split at hstep
    · cases hstep
      constructor <;> assumption
    · cases hstep
  | send index =>
    simp only [step] at hstep
    split at hstep
    · next hrule =>
      obtain ⟨resChan, hsend, rfl⟩ := Option.map_eq_some_iff.mp hstep
      exact .sendResult hrule hsend
    · next hrule =>
      obtain ⟨errChan, hsend, rfl⟩ := Option.map_eq_some_iff.mp hstep
      exact .sendError hrule hsend
    · cases hstep
  | receiveClosed | wait =>
    simp only [step] at hstep
    split at hstep
    · split_ifs at hstep
      cases hstep
      constructor <;> assumption
    · cases hstep
  | signal =>
    simp only [step] at hstep
    split at hstep
    · next hcollector =>
      obtain ⟨done, hsend, rfl⟩ := Option.map_eq_some_iff.mp hstep
      exact .signal hcollector hsend
    · cases hstep
  | perform name candidates =>
    simp only [step] at hstep
    split at hstep
    · next hmain =>
      split_ifs at hstep with hperform
      cases hstep
      exact .perform hmain hperform.1 hperform.2
    · cases hstep

/-! ## The goroutines of the rules -/

theorem sum_set (f : Goroutine → ℕ) {before : Goroutine} (hindex : goroutines[index]? = some before)
    (after : Goroutine) :
    ((goroutines.set index after).map f).sum + f before = (goroutines.map f).sum + f after := by
  induction goroutines generalizing index with
  | nil => simp at hindex
  | cons first rest ih =>
    cases index with
    | zero =>
      obtain rfl : first = before := by simpa using hindex
      simp only [set_cons_zero, map_cons, sum_cons]
      omega
    | succ index =>
      have hrest := ih (by simpa using hindex : rest[index]? = some before)
      simp only [set_cons_succ, map_cons, sum_cons]
      omega

theorem forall_mem_setStage {Q : Goroutine → Prop} (hall : ∀ g ∈ state.goroutines, Q g)
    (hafter : Q ⟨rule, stage⟩) : ∀ g ∈ (state.setStage index rule stage).goroutines, Q g := by
  intro g hg
  rcases mem_or_eq_of_mem_set hg with hold | rfl
  · exact hall g hold
  · exact hafter

/-! ## Every run is finite -/

def Stage.weight : Stage → ℕ
  | .evaluating => 5
  | .sending _ => 4
  | .leaving => 1
  | .finished => 0

def CollectorStage.weight : CollectorStage → ℕ
  | .receiving => 3
  | .leaving => 2
  | .finished => 0

/-- The main goroutine still has to perform all actions that have results. -/
def MainStage.weight (actions : ℕ) : MainStage → ℕ
  | .waiting => actions + 5
  | .closing => actions + 4
  | .joining => actions + 3
  | .performing remaining _ => remaining.length + 1
  | .returned _ => 0

theorem MainStage.weight_mono (stage : MainStage) {fewer more : ℕ} (hmore : more ≤ fewer + 1) :
    stage.weight more ≤ stage.weight fewer + 1 := by
  cases stage <;> simp only [MainStage.weight] <;> omega

/-- What is left for the goroutines of the rules. -/
def rulesWeight (goroutines : List Goroutine) : ℕ :=
  (goroutines.map fun g => g.stage.weight).sum

theorem rulesWeight_setStage (hrule : state.goroutines[index]? = some ⟨rule, before⟩)
    (after : Stage) :
    rulesWeight (state.setStage index rule after).goroutines + before.weight =
      rulesWeight state.goroutines + after.weight :=
  sum_set (fun g => g.stage.weight) hrule ⟨rule, after⟩

/-- How much is left to do; a result in the channel may become an action to perform. -/
def ProcState.weight (state : ProcState) : ℕ :=
  rulesWeight state.goroutines + state.collector.weight +
    state.main.weight state.processedCandidates.keys.length +
    2 * state.resChan.buffer.length + state.errChan.buffer.length + state.done.buffer.length

theorem keys_merge_le (state : ProcState) (item : ChanItem) :
    (state.merge item).processedCandidates.keys.length ≤
      state.processedCandidates.keys.length + 1 := by
  unfold ProcState.merge
  rw [AList.keys_insert, length_cons]
  exact Nat.succ_le_succ length_erase_le

theorem weight_afterJoin (state : ProcState) :
    state.afterJoin.weight state.processedCandidates.keys.length ≤
      state.processedCandidates.keys.length + 1 := by
  unfold afterJoin
  cases state.err with
  | none => exact le_refl _
  | some err => exact Nat.zero_le _

theorem Moves.weight_lt (hmove : Moves p artifacts state action next) :
    next.weight < state.weight := by
  cases hmove with
  | @evaluate index rule hrule =>
    have hrules := rulesWeight_setStage hrule (.sending (rule.outcome artifacts))
    simp only [weight, ProcState.setStage, Stage.weight] at hrules ⊢
    omega
  | sendResult hrule hsend | sendError hrule hsend =>
    have hrules := rulesWeight_setStage hrule .leaving
    have hbuffer := congrArg length (Channel.send_eq_some hsend).1
    rw [length_append, length_singleton] at hbuffer
    simp only [weight, ProcState.setStage, Stage.weight] at hrules ⊢
    omega
  | wgDone hrule =>
    have hrules := rulesWeight_setStage hrule .finished
    simp only [weight, ProcState.setStage, Stage.weight] at hrules ⊢
    omega
  | @receiveResult item resChan hcollector hreceive =>
    have hbuffer := congrArg length (Channel.receive?_eq_some hreceive).1
    rw [length_cons] at hbuffer
    have hmain := state.main.weight_mono (keys_merge_le state item)
    simp only [weight, ProcState.merge] at hmain ⊢
    omega
  | receiveError hcollector hreceive =>
    have hbuffer := congrArg length (Channel.receive?_eq_some hreceive).1
    rw [length_cons] at hbuffer
    simp only [weight, ProcState.collectErr]
    omega
  | receiveClosed hcollector hdrained =>
    simp only [weight, hcollector, CollectorStage.weight]
    omega
  | signal hcollector hsend =>
    have hbuffer := congrArg length (Channel.send_eq_some hsend).1
    rw [length_append, length_singleton] at hbuffer
    simp only [weight, hcollector, CollectorStage.weight]
    omega
  | wait hmain _ | close hmain | finish hmain =>
    simp only [weight, hmain, MainStage.weight, Channel.close]
    omega
  | join hmain hreceive =>
    have hbuffer := congrArg length (Channel.receive?_eq_some hreceive).1
    rw [length_cons] at hbuffer
    have hjoin := weight_afterJoin state
    have hjoining : state.main.weight state.processedCandidates.keys.length =
        state.processedCandidates.keys.length + 3 := by rw [hmain]; rfl
    simp only [weight, hjoining]
    omega
  | perform hmain hname hcandidates =>
    have hlength := length_erase_add_one hname
    simp only [weight, hmain, MainStage.weight]
    omega

theorem weight_start (hartifacts : artifacts ≠ []) :
    (p.start artifacts).weight = 5 * p.evaluators.length + 8 := by
  have hrules : rulesWeight (p.start artifacts).goroutines = 5 * p.evaluators.length := by
    simp [rulesWeight, start, Function.comp_def, Stage.weight, Nat.mul_comm]
  rw [weight, hrules]
  simp [start, hartifacts, CollectorStage.weight, MainStage.weight, make]

/-! ## How the goroutines stand to each other -/

/-- The order of the stages of the main goroutine. -/
def MainStage.rank : MainStage → ℕ
  | .waiting => 0
  | .closing => 1
  | .joining => 2
  | .performing _ _ => 3
  | .returned _ => 4

def Stage.pending : Stage → ℕ
  | .finished => 0
  | _ => 1

structure ProcInv (artifacts : List Candidate) (state : ProcState) : Prop where
  wg_eq : state.wg = (state.goroutines.map fun g => g.stage.pending).sum
  outcome : ∀ g ∈ state.goroutines, ∀ outcome, g.stage = .sending outcome →
    outcome = g.rule.outcome artifacts
  finished : 1 ≤ state.main.rank → ∀ g ∈ state.goroutines, g.stage = .finished
  closed_iff : state.resChan.closed = true ↔ 2 ≤ state.main.rank
  drained : state.collector ≠ .receiving → state.resChan.drained
  done_empty : state.collector ≠ .finished → state.done.buffer = []
  done_signalled : state.collector = .finished → state.main.rank ≤ 2 → state.done.buffer ≠ []
  joined : 3 ≤ state.main.rank → state.collector = .finished

open MainStage

theorem procInv_start (hartifacts : artifacts ≠ []) : ProcInv artifacts (p.start artifacts) where
  wg_eq := by simp [start, Function.comp_def, Stage.pending]
  outcome g hg outcome hstage := by
    obtain ⟨rule, -, rfl⟩ := mem_map.mp hg
    cases hstage
  finished hrank := by simp [start, hartifacts, rank] at hrank
  closed_iff := by simp [start, hartifacts, rank, make]
  drained hcollector := absurd rfl hcollector
  done_empty _ := rfl
  done_signalled hcollector := by cases hcollector
  joined hrank := by simp [start, hartifacts, rank] at hrank

section Invariant

variable {index : ℕ} {rule : Rule} {stage : Stage}

/-- While a rule is not done, the main goroutine waits and the collector receives. -/
theorem ProcInv.underway (hinv : ProcInv artifacts state)
    (hrule : state.goroutines[index]? = some ⟨rule, stage⟩) (hstage : stage ≠ .finished) :
    state.main.rank = 0 ∧ state.collector = .receiving := by
  have hwaiting : state.main.rank = 0 := by
    by_contra hrank
    exact hstage (hinv.finished (Nat.pos_of_ne_zero hrank) _ (mem_of_getElem? hrule))
  refine ⟨hwaiting, ?_⟩
  by_contra hcollector
  have hclosed := (drained_iff.mp (hinv.drained hcollector)).1
  have hrank := hinv.closed_iff.mp hclosed
  omega

/-- The rules move on or the collector receives, while the channel of the results is as open as
before. -/
theorem ProcInv.stay (hinv : ProcInv artifacts state) (hreceiving : state.collector = .receiving)
    (hwg : next.wg = (next.goroutines.map fun g => g.stage.pending).sum)
    (houtcome : ∀ g ∈ next.goroutines, ∀ outcome, g.stage = .sending outcome →
      outcome = g.rule.outcome artifacts)
    (hfinished : 1 ≤ state.main.rank → ∀ g ∈ next.goroutines, g.stage = .finished)
    (hmain : next.main = state.main) (hcollector : next.collector = state.collector)
    (hclosed : next.resChan.closed = state.resChan.closed) (hdone : next.done = state.done) :
    ProcInv artifacts next where
  wg_eq := hwg
  outcome := houtcome
  finished := by rwa [hmain]
  closed_iff := by rw [hclosed, hmain]; exact hinv.closed_iff
  drained hleft := absurd (hcollector.trans hreceiving) hleft
  done_empty := by rw [hcollector, hdone]; exact hinv.done_empty
  done_signalled := by rw [hcollector, hmain, hdone]; exact hinv.done_signalled
  joined := by rw [hcollector, hmain]; exact hinv.joined

theorem ProcInv.setStage (hinv : ProcInv artifacts state)
    (hrule : state.goroutines[index]? = some ⟨rule, stage⟩) (hstage : stage ≠ .finished)
    {after : Stage}
    (hafter : ∀ outcome, after = .sending outcome → outcome = rule.outcome artifacts)
    (hgoroutines : next.goroutines = (state.setStage index rule after).goroutines)
    (hwg : next.wg + stage.pending = state.wg + after.pending)
    (hmain : next.main = state.main) (hcollector : next.collector = state.collector)
    (hclosed : next.resChan.closed = state.resChan.closed) (hdone : next.done = state.done) :
    ProcInv artifacts next := by
  obtain ⟨hwaiting, hreceiving⟩ := hinv.underway hrule hstage
  refine hinv.stay hreceiving ?_ ?_ (fun hrank => by omega) hmain hcollector hclosed hdone
  · have hsum := sum_set (fun g => g.stage.pending) hrule ⟨rule, after⟩
    have hold := hinv.wg_eq
    rw [hgoroutines]
    simp only [ProcState.setStage] at hsum ⊢
    omega
  · rw [hgoroutines]
    exact forall_mem_setStage hinv.outcome hafter

theorem pending_eq_zero_iff {goroutines : List Goroutine} :
    (goroutines.map fun g => g.stage.pending).sum = 0 ↔
      ∀ g ∈ goroutines, g.stage = .finished := by
  induction goroutines with
  | nil => simp
  | cons first rest ih =>
    have hfirst : first.stage.pending = 0 ↔ first.stage = .finished := by
      cases first.stage <;> simp [Stage.pending]
    rw [map_cons, sum_cons, Nat.add_eq_zero_iff, hfirst, ih, forall_mem_cons]

theorem three_le_rank_afterJoin (state : ProcState) : 3 ≤ state.afterJoin.rank := by
  unfold afterJoin
  cases state.err with
  | none => exact le_refl _
  | some err => exact Nat.le_succ 3

/-- The main goroutine goes on after the collector is done. -/
theorem ProcInv.later (hinv : ProcInv artifacts state) (hfinished : state.collector = .finished)
    (hrank : 2 ≤ state.main.rank) (hgoroutines : next.goroutines = state.goroutines)
    (hwg : next.wg = state.wg) (hnext : 3 ≤ next.main.rank)
    (hcollector : next.collector = state.collector) (hresChan : next.resChan = state.resChan) :
    ProcInv artifacts next where
  wg_eq := by rw [hwg, hgoroutines]; exact hinv.wg_eq
  outcome := by rw [hgoroutines]; exact hinv.outcome
  finished _ := by
    rw [hgoroutines]
    exact hinv.finished (by omega)
  closed_iff := by
    rw [hresChan]
    exact ⟨fun _ => by omega, fun _ => hinv.closed_iff.mpr hrank⟩
  drained _ := by
    rw [hresChan]
    exact hinv.drained (by simp [hfinished])
  done_empty hleft := absurd (hcollector.trans hfinished) hleft
  done_signalled _ hearly := by omega
  joined _ := hcollector.trans hfinished

/-- The collector is done when it has signalled. -/
theorem ProcInv.finished_of_receive (hinv : ProcInv artifacts state) {done : Channel Unit 1}
    (hreceive : state.done.receive? = some ((), done)) : state.collector = .finished := by
  by_contra hcollector
  have hbuffer := (receive?_eq_some hreceive).1
  rw [hinv.done_empty hcollector] at hbuffer
  cases hbuffer

theorem Moves.inv (hmove : Moves p artifacts state action next) (hinv : ProcInv artifacts state) :
    ProcInv artifacts next := by
  cases hmove with
  | evaluate hrule =>
    exact hinv.setStage hrule (by simp) (fun _ h => (Stage.sending.inj h).symm) rfl rfl rfl rfl
      rfl rfl
  | sendResult hrule hsend =>
    exact hinv.setStage hrule (by simp) (fun _ h => by cases h) rfl rfl rfl rfl
      (send_eq_some hsend).2 rfl
  | sendError hrule hsend =>
    exact hinv.setStage hrule (by simp) (fun _ h => by cases h) rfl rfl rfl rfl rfl rfl
  | @wgDone index rule hrule =>
    have hpositive : 0 < state.wg := by
      have hsum := sum_set (fun g => g.stage.pending) hrule ⟨rule, .finished⟩
      rw [hinv.wg_eq]
      simp only [Stage.pending] at hsum ⊢
      omega
    refine hinv.setStage hrule (by simp) (fun _ h => by cases h) rfl ?_ rfl rfl rfl rfl
    simp only [Stage.pending]
    omega
  | receiveResult hcollector hreceive =>
    exact hinv.stay hcollector hinv.wg_eq hinv.outcome hinv.finished rfl rfl
      (receive?_eq_some hreceive).2 rfl
  | receiveError hcollector hreceive =>
    exact hinv.stay hcollector hinv.wg_eq hinv.outcome hinv.finished rfl rfl rfl rfl
  | receiveClosed hcollector hdrained =>
    refine ⟨hinv.wg_eq, hinv.outcome, hinv.finished, hinv.closed_iff, fun _ => hdrained, ?_, ?_,
      fun hrank => ?_⟩
    · exact fun _ => hinv.done_empty (by simp [hcollector])
    · intro hfinished
      cases hfinished
    · have hjoined := hinv.joined hrank
      rw [hcollector] at hjoined
      cases hjoined
  | signal hcollector hsend =>
    refine ⟨hinv.wg_eq, hinv.outcome, hinv.finished, hinv.closed_iff, fun _ => ?_,
      fun hleft => ?_, fun _ _ => ?_, fun _ => rfl⟩
    · exact hinv.drained (by simp [hcollector])
    · exact absurd rfl hleft
    · rw [(send_eq_some hsend).1]
      simp
  | wait hmain hwg =>
    have hall : ∀ g ∈ state.goroutines, g.stage = .finished :=
      pending_eq_zero_iff.mp (hinv.wg_eq.symm.trans hwg)
    have hopen := hinv.closed_iff
    have hsignalled := hinv.done_signalled
    rw [hmain] at hopen hsignalled
    refine ⟨hinv.wg_eq, hinv.outcome, fun _ => hall, ?_, hinv.drained, hinv.done_empty, ?_, ?_⟩
    · simpa [rank] using hopen
    · exact fun hfinished _ => hsignalled hfinished (by simp [rank])
    · intro hrank
      simp [rank] at hrank
  | close hmain =>
    have hfinished := hinv.finished
    have hopen := hinv.closed_iff
    have hsignalled := hinv.done_signalled
    rw [hmain] at hfinished hopen hsignalled
    refine ⟨hinv.wg_eq, hinv.outcome, fun _ => hfinished (by simp [rank]), ?_, ?_,
      hinv.done_empty, ?_, ?_⟩
    · simp [Channel.close, rank]
    · intro hleft
      have hclosed := (drained_iff.mp (hinv.drained hleft)).1
      exact absurd (hopen.mp hclosed) (by simp [rank])
    · exact fun hdone _ => hsignalled hdone (by simp [rank])
    · intro hrank
      simp [rank] at hrank
  | join hmain hreceive =>
    exact hinv.later (hinv.finished_of_receive hreceive) (by simp [hmain, rank]) rfl rfl
      (three_le_rank_afterJoin state) rfl rfl
  | perform hmain _ _ | finish hmain =>
    have hrank : 3 ≤ state.main.rank := by simp [hmain, rank]
    exact hinv.later (hinv.joined hrank) (by omega) rfl rfl (by simp [rank]) rfl rfl

end Invariant

/-! ## Some move is possible -/

/-- Some goroutine can move. -/
def CanMove (p : Processor) (artifacts : List Candidate) (state : ProcState) : Prop :=
  ∃ action, (p.step artifacts state action).isSome

theorem exists_pending (hsum : (goroutines.map fun g => g.stage.pending).sum ≠ 0) :
    ∃ (index : ℕ) (rule : Rule) (stage : Stage),
      goroutines[index]? = some ⟨rule, stage⟩ ∧ stage ≠ .finished := by
  obtain ⟨g, hg, hstage⟩ : ∃ g ∈ goroutines, g.stage ≠ .finished := by
    by_contra hnone
    refine hsum (pending_eq_zero_iff.mpr fun g hg => ?_)
    by_contra hstage
    exact hnone ⟨g, hg, hstage⟩
  obtain ⟨index, hindex⟩ := getElem?_of_mem hg
  exact ⟨index, g.rule, g.stage, hindex, hstage⟩

/-- A rule that is not done can go on if the channels have room. -/
theorem rule_can_move (hrule : state.goroutines[index]? = some ⟨rule, stage⟩)
    (hstage : stage ≠ .finished) (hresults : state.resChan.buffer = [])
    (herrors : state.errChan.buffer = []) : CanMove p artifacts state := by
  cases stage with
  | evaluating => exact ⟨.evaluate index, by simp [step, hrule]⟩
  | sending outcome =>
    cases outcome with
    | ok item =>
      obtain ⟨resChan, hsend⟩ := exists_send (by rw [hresults]; exact Nat.zero_lt_one) item
      exact ⟨.send index, by simp [step, hrule, hsend]⟩
    | error err =>
      obtain ⟨errChan, hsend⟩ := exists_send (by rw [herrors]; exact Nat.zero_lt_one) err
      exact ⟨.send index, by simp [step, hrule, hsend]⟩
  | leaving => exact ⟨.wgDone index, by simp [step, hrule]⟩
  | finished => exact absurd rfl hstage

theorem ProcInv.can_move_receiving (hinv : ProcInv artifacts state)
    (hcollector : state.collector = .receiving) : CanMove p artifacts state := by
  by_cases hresults : state.resChan.buffer = []
  swap
  · obtain ⟨item, resChan, hreceive⟩ := exists_receive? hresults
    exact ⟨.receiveResult, by simp [step, hcollector, hreceive]⟩
  by_cases herrors : state.errChan.buffer = []
  swap
  · obtain ⟨err, errChan, hreceive⟩ := exists_receive? herrors
    exact ⟨.receiveError, by simp [step, hcollector, hreceive]⟩
  by_cases hclosed : state.resChan.closed = true
  · have hdrained : state.resChan.drained = true := drained_iff.mpr ⟨hclosed, hresults⟩
    exact ⟨.receiveClosed, by simp [step, hcollector, hdrained]⟩
  -- both channels are empty and open, so the main goroutine has not closed yet
  cases hmain : state.main with
  | waiting =>
    by_cases hwg : state.wg = 0
    · exact ⟨.wait, by simp [step, hmain, hwg]⟩
    · rw [hinv.wg_eq] at hwg
      obtain ⟨index, rule, stage, hrule, hstage⟩ := exists_pending hwg
      exact rule_can_move hrule hstage hresults herrors
  | closing => exact ⟨.close, by simp [step, hmain]⟩
  | _ => exact absurd (hinv.closed_iff.mpr (by simp [hmain, rank])) hclosed

/-- **No deadlock.**  Until `Process` has returned, some goroutine can move. -/
theorem ProcInv.can_move (hinv : ProcInv artifacts state)
    (hmain : ∀ result, state.main ≠ .returned result) : CanMove p artifacts state := by
  cases hcollector : state.collector with
  | receiving => exact hinv.can_move_receiving hcollector
  | leaving =>
    have hempty := hinv.done_empty (by simp [hcollector])
    obtain ⟨done, hsend⟩ := exists_send (by rw [hempty]; exact Nat.zero_lt_one) ()
    exact ⟨.signal, by simp [step, hcollector, hsend]⟩
  | finished =>
    have hclosed := (drained_iff.mp (hinv.drained (by simp [hcollector]))).1
    have hrank := hinv.closed_iff.mp hclosed
    cases hstage : state.main with
    | joining =>
      obtain ⟨_, done, hreceive⟩ := exists_receive?
        (hinv.done_signalled hcollector (by simp [hstage, rank]))
      exact ⟨.join, by simp [step, hstage, hreceive]⟩
    | performing remaining results =>
      cases remaining with
      | nil => exact ⟨.finish, by simp [step, hstage]⟩
      | cons name rest =>
        exact ⟨.perform name (state.candidatesOf name), by simp [step, hstage]⟩
    | returned result => exact absurd hstage (hmain result)
    | _ => simp [hstage, rank] at hrank

/-! ## Where an error is -/

/-- The goroutine has an error to send. -/
def Goroutine.HasError (artifacts : List Candidate) (g : Goroutine) : Prop :=
  g.rule.Errs artifacts ∧ (g.stage = .evaluating ∨ ∃ err, g.stage = .sending (.error err))

/-- There is an error, no error was lost, and nothing is performed. -/
structure ErrorKept (artifacts : List Candidate) (state : ProcState) : Prop where
  ahead : (∃ g ∈ state.goroutines, g.HasError artifacts) ∨ state.errChan.buffer ≠ [] ∨
    state.err ≠ none
  collected : state.collector ≠ .receiving → state.err ≠ none
  idle : state.performed = [] ∧ ∀ remaining results, state.main ≠ .performing remaining results
  returned : ∀ results, state.main ≠ .returned (.ok results)

theorem errorKept_start (hartifacts : artifacts ≠ [])
    (herrs : ∃ rule ∈ p.evaluators, rule.Errs artifacts) :
    ErrorKept artifacts (p.start artifacts) := by
  obtain ⟨rule, hrule, herr⟩ := herrs
  refine ⟨.inl ⟨{ rule }, mem_map.mpr ⟨rule, hrule, rfl⟩, herr, .inl rfl⟩, ?_, ⟨rfl, ?_⟩, ?_⟩
  · exact fun hleft => absurd rfl hleft
  · simp [start, hartifacts]
  · simp [start, hartifacts]

theorem mem_setStage {other : ℕ} (hindex : index ≠ other)
    (hother : state.goroutines[other]? = some g) :
    g ∈ (state.setStage index rule stage).goroutines := by
  refine mem_of_getElem? (i := other) ?_
  rw [setStage, getElem?_set_ne hindex, hother]

theorem mem_setStage_of_ne (hrule : state.goroutines[index]? = some ⟨rule, before⟩)
    (hg : g ∈ state.goroutines) (hne : g.stage ≠ before) :
    g ∈ (state.setStage index rule after).goroutines := by
  obtain ⟨other, hother⟩ := getElem?_of_mem hg
  refine mem_setStage ?_ hother
  rintro rfl
  rw [hrule] at hother
  exact hne (congrArg Goroutine.stage (Option.some.inj hother)).symm

theorem self_mem_setStage (hrule : state.goroutines[index]? = some ⟨rule, before⟩) :
    ⟨rule, after⟩ ∈ (state.setStage index rule after).goroutines := by
  obtain ⟨hindex, -⟩ := List.getElem?_eq_some_iff.mp hrule
  exact mem_set hindex _

/-- A rule that moves on keeps its error to send. -/
theorem hasError_evaluate (hrule : state.goroutines[index]? = some ⟨rule, .evaluating⟩)
    (hahead : ∃ g ∈ state.goroutines, g.HasError artifacts) :
    ∃ g ∈ (state.setStage index rule (.sending (rule.outcome artifacts))).goroutines,
      g.HasError artifacts := by
  obtain ⟨g, hg, herrs, hstage⟩ := hahead
  obtain ⟨other, hother⟩ := getElem?_of_mem hg
  by_cases hindex : index = other
  · -- the goroutine that moves is the one with the error
    subst hindex
    cases hother.symm.trans hrule
    obtain ⟨err, hout⟩ := herrs
    refine ⟨_, self_mem_setStage hrule, ⟨err, hout⟩, .inr ⟨err, ?_⟩⟩
    exact congrArg Stage.sending hout
  · exact ⟨g, mem_setStage hindex hother, herrs, hstage⟩

/-- The collector does not leave while the only errors are still in the channel. -/
def ErrorSeen (before : ProcState) (action : ProcAction) (_after : ProcState) : Prop :=
  action = .receiveClosed → before.errChan.buffer ≠ [] → before.err ≠ none

/-- When the collector can leave, no rule has anything to send any more. -/
theorem ProcInv.no_error_ahead (hinv : ProcInv artifacts state) (hdrained : state.resChan.drained) :
    ¬ ∃ g ∈ state.goroutines, g.HasError artifacts := by
  rintro ⟨g, hg, -, hstage⟩
  have hrank := hinv.closed_iff.mp (drained_iff.mp hdrained).1
  rw [hinv.finished (by omega) g hg] at hstage
  rcases hstage with hstage | ⟨err, hstage⟩ <;> cases hstage

/-- If the errors are seen, a move keeps an error. -/
theorem ErrorKept.move (hkept : ErrorKept artifacts state) (hinv : ProcInv artifacts state)
    (hmove : Moves p artifacts state action next) (hseen : ErrorSeen state action next) :
    ErrorKept artifacts next := by
  cases hmove with
  | evaluate hrule =>
    refine ⟨?_, hkept.collected, hkept.idle, hkept.returned⟩
    exact hkept.ahead.imp (hasError_evaluate hrule) id
  | sendResult hrule _ | wgDone hrule =>
    refine ⟨hkept.ahead.imp ?_ id, hkept.collected, hkept.idle, hkept.returned⟩
    rintro ⟨g, hg, herrs, hstage⟩
    refine ⟨g, mem_setStage_of_ne hrule hg ?_, herrs, hstage⟩
    rcases hstage with hstage | ⟨err, hstage⟩ <;> simp [hstage]
  | sendError hrule hsend =>
    refine ⟨.inr (.inl ?_), hkept.collected, hkept.idle, hkept.returned⟩
    rw [(send_eq_some hsend).1]
    simp
  | receiveResult hcollector hreceive =>
    exact ⟨hkept.ahead, hkept.collected, hkept.idle, hkept.returned⟩
  | receiveError hcollector hreceive =>
    refine ⟨.inr (.inr ?_), fun _ => ?_, hkept.idle, hkept.returned⟩ <;> simp [collectErr]
  | receiveClosed hcollector hdrained =>
    have herr : state.err ≠ none := by
      rcases hkept.ahead with hahead | herrors | herr
      · exact absurd hahead (hinv.no_error_ahead hdrained)
      · exact hseen rfl herrors
      · exact herr
    exact ⟨.inr (.inr herr), fun _ => herr, hkept.idle, hkept.returned⟩
  | signal hcollector hsend =>
    have herr := hkept.collected (by simp [hcollector])
    exact ⟨.inr (.inr herr), fun _ => herr, hkept.idle, hkept.returned⟩
  | wait hmain hwg | close hmain =>
    exact ⟨hkept.ahead, hkept.collected, ⟨hkept.idle.1, by simp⟩, by simp⟩
  | join hmain hreceive =>
    have herr := hkept.collected (by simp [hinv.finished_of_receive hreceive])
    obtain ⟨err, hsome⟩ := Option.ne_none_iff_exists'.mp herr
    have hjoin : state.afterJoin = .returned (.error err) := by
      simp [afterJoin, hsome]
    exact ⟨.inr (.inr herr), fun _ => herr, ⟨hkept.idle.1, by simp [hjoin]⟩, by simp [hjoin]⟩
  | perform hmain hname hcandidates | finish hmain => exact absurd hmain (hkept.idle.2 _ _)

/-- The collector is gone and has no error. -/
structure ErrorLost (state : ProcState) : Prop where
  left : state.collector ≠ .receiving
  clean : state.err = none
  returned : ∀ err, state.main ≠ .returned (.error err)

theorem ErrorLost.move (hlost : ErrorLost state) (hmove : Moves p artifacts state action next) :
    ErrorLost next := by
  cases hmove with
  | evaluate | sendResult | sendError | wgDone =>
    exact ⟨hlost.left, hlost.clean, hlost.returned⟩
  | receiveResult hcollector | receiveError hcollector | receiveClosed hcollector =>
    exact absurd hcollector hlost.left
  | signal => exact ⟨by simp, hlost.clean, hlost.returned⟩
  | wait | close | perform | finish => exact ⟨hlost.left, hlost.clean, by simp⟩
  | join =>
    refine ⟨hlost.left, hlost.clean, ?_⟩
    simp [afterJoin, hlost.clean]

/-- If the collector leaves without having seen the errors, they are lost. -/
theorem ProcInv.errorLost (hinv : ProcInv artifacts state)
    (hmove : Moves p artifacts state action next) (hunseen : ¬ ErrorSeen state action next) :
    ErrorLost next := by
  unfold ErrorSeen at hunseen
  push Not at hunseen
  obtain ⟨rfl, -, hclean⟩ := hunseen
  cases hmove with
  | receiveClosed hcollector hdrained =>
    refine ⟨by simp, hclean, fun err hmain => ?_⟩
    have hjoined := hinv.joined (by simp [show state.main = .returned (.error err) from hmain,
      rank])
    rw [hcollector] at hjoined
    cases hjoined

/-! ## Errors are reported -/

theorem procInv_exec (hartifacts : artifacts ≠ [])
    (hrun : exec (p.step artifacts) (p.start artifacts) actions = some final) :
    ProcInv artifacts final :=
  exec_invariant _ (fun _ _ _ hinv hstep _ => (moves_of_step hstep).inv hinv)
    (procInv_start hartifacts) (everyStep_true _ actions) hrun

theorem errorKept_exec (hartifacts : artifacts ≠ [])
    (herrs : ∃ rule ∈ p.evaluators, rule.Errs artifacts)
    (hrun : exec (p.step artifacts) (p.start artifacts) actions = some final)
    (hseen : EveryStep (p.step artifacts) ErrorSeen (p.start artifacts) actions) :
    ErrorKept artifacts final := by
  refine (exec_invariant (fun state => ProcInv artifacts state ∧ ErrorKept artifacts state) ?_
    ⟨procInv_start hartifacts, errorKept_start hartifacts herrs⟩ hseen hrun).2
  rintro state action next ⟨hinv, hkept⟩ hstep hsees
  have hmove := moves_of_step hstep
  exact ⟨hmove.inv hinv, hkept.move hinv hmove hsees⟩

/-- If a rule returns an error, then in every run `Process` returns, and it returns an error
and calls no performer iff the collector does not leave while the only errors are still in
the channel. -/
theorem error_reported_iff {actions : List ProcAction} {final : ProcState}
    (hartifacts : artifacts ≠ []) (herrs : ∃ rule ∈ p.evaluators, rule.Errs artifacts)
    (hrun : exec (p.step artifacts) (p.start artifacts) actions = some final) :
    actions.length ≤ 5 * p.evaluators.length + 8 ∧
    ((∀ result, final.main ≠ .returned result) → CanMove p artifacts final) ∧
    ∀ result, final.main = .returned result →
      ((∃ err, result = .error err) ∧ final.performed = [] ↔
        EveryStep (p.step artifacts) ErrorSeen (p.start artifacts) actions) := by
  refine ⟨?_, (procInv_exec hartifacts hrun).can_move, fun result hresult => ⟨?_, ?_⟩⟩
  · have hlength := length_le_of_decreasing weight
      (fun _ _ _ hstep => (moves_of_step hstep).weight_lt) hrun
    rw [weight_start hartifacts] at hlength
    omega
  · rintro ⟨⟨err, rfl⟩, -⟩
    refine everyStep_of_not_trapped (ProcInv artifacts) ErrorLost
      (fun _ _ _ hinv hstep => (moves_of_step hstep).inv hinv)
      (fun _ _ _ hlost hstep => hlost.move (moves_of_step hstep))
      (fun _ _ _ hinv hstep hunseen => hinv.errorLost (moves_of_step hstep) hunseen)
      (procInv_start hartifacts) hrun ?_
    exact fun hlost => hlost.returned err hresult
  · intro hseen
    have hkept := errorKept_exec hartifacts herrs hrun hseen
    refine ⟨?_, hkept.idle.1⟩
    cases result with
    | error err => exact ⟨err, rfl⟩
    | ok results => exact absurd hresult (hkept.returned results)

/-- Two rules: one retains nothing, the other one cannot be evaluated. -/
def brokenRules : Processor where
  evaluators := [⟨⟨fun _ => .ok [], "retain"⟩, [fun processed => .ok processed]⟩,
    ⟨⟨fun _ => .error "timeout", "retain"⟩, [fun processed => .ok processed]⟩]
  performers := (∅ : AList fun _ : String => Performer).insert "retain" fun _ => .ok []

/-- Both rules are evaluated and send, and the collector receives the result. -/
def brokenRulesSend : List ProcAction :=
  [.evaluate 0, .send 0, .wgDone 0, .evaluate 1, .send 1, .wgDone 1, .receiveResult]

def brokenArtifacts : List Candidate := [{ repository := "hello", digest := "sha256:5a" }]

theorem brokenRules_errs : ∃ rule ∈ brokenRules.evaluators, rule.Errs brokenArtifacts :=
  ⟨_, mem_cons_of_mem _ mem_cons_self, "timeout", rfl⟩

/-- The collector receives the error before it finds the channel of the results closed. -/
theorem error_reported_iff_received :
    ∃ final, exec (brokenRules.step brokenArtifacts) (brokenRules.start brokenArtifacts)
        (brokenRulesSend ++ [.wait, .close, .receiveError, .receiveClosed, .signal, .join]) =
        some final ∧
      final.main = .returned (.error "artifact processing error: timeout") ∧
      final.performed = [] ∧
      EveryStep (brokenRules.step brokenArtifacts) ErrorSeen (brokenRules.start brokenArtifacts)
        (brokenRulesSend ++ [.wait, .close, .receiveError, .receiveClosed, .signal, .join]) := by
  refine ⟨_, rfl, rfl, rfl, ?_⟩
  exact ((error_reported_iff (by simp [brokenArtifacts]) brokenRules_errs rfl).2.2 _ rfl).mp
    ⟨⟨_, rfl⟩, rfl⟩

/-- The collector leaves before it receives the error: the performer is called with the
candidates of the other rule, and there is no error. -/
theorem error_missed :
    ∃ final, exec (brokenRules.step brokenArtifacts) (brokenRules.start brokenArtifacts)
        (brokenRulesSend ++
          [.wait, .close, .receiveClosed, .signal, .join, .perform "retain" [], .finish]) =
        some final ∧
      final.main = .returned (.ok []) ∧ final.performed = [("retain", [])] :=
  ⟨_, rfl, rfl, rfl⟩

end Harbor.Retention
