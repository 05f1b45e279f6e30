import Harbor.Concurrency.Transition
import Harbor.Concurrency.Channel
import Mathlib.Data.List.AList

/-!
# The OR processor of tag retention

`processor.Process` evaluates all rules of a retention policy at once.  Every rule
has a goroutine of its own, which sends what the rule retains, or an error, to a
goroutine that collects both; the main goroutine waits for the rules, closes the
channel of the results, waits for the collector and then performs the actions.

`step` is one move of one goroutine; `ProcAction` says whose, and how a choice is
resolved: which of the ready channels the collector receives from, and the order
in which a loop goes over a map.  The goroutines of the rules all exist from the
start, since one that has not been started yet is like one that has not run yet.
-/

namespace Harbor.Retention

open Harbor.Concurrency

/-! ## Candidates and rules -/

/-- `selector.Candidate`.  The map of signatures is a list of its entries. -/
structure Candidate where
  namespaceID : ℤ := 0
  namespaceName : String := ""
  repository : String := ""
  kind : String := ""
  tags : List String := []
  digest : String := ""
  pushedTime : ℤ := 0
  pulledTime : ℤ := 0
  creationTime : ℤ := 0
  labels : List String := []
  vulnerabilitySeverity : ℕ := 0
  signatures : List (String × Bool) := []
  deriving DecidableEq, Repr

/-- `Candidate.Hash`, without the base64 encoding of the text. -/
def Candidate.hash (candidate : Candidate) : String :=
  s!"{candidate.kind}:{candidate.namespaceName}/{candidate.repository}:{candidate.digest}"

structure Result where
  target : Candidate
  error : Option String := none
  deriving DecidableEq, Repr

abbrev Selector := List Candidate → Except String (List Candidate)

structure Evaluator where
  process : List Candidate → Except String (List Candidate)
  action : String

abbrev Performer := List Candidate → Except String (List Result)

/-- `alg.Parameter`: one rule of the policy. -/
structure Parameter where
  evaluator : Option Evaluator
  selectors : List Selector
  performer : Option Performer

/-- An evaluator with its selectors. -/
structure Rule where
  evaluator : Evaluator
  selectors : List Selector

structure Processor where
  evaluators : List Rule
  performers : AList fun _ : String => Performer

/-- `New`.  Rules without selectors are dropped, but their performers are not; of several
performers for one action the last one counts. -/
def newProcessor (parameters : List Parameter) : Processor where
  evaluators := parameters.filterMap fun param =>
    match param.evaluator, param.selectors with
    | some _, [] => none
    | some evaluator, selectors => some ⟨evaluator, selectors⟩
    | none, _ => none
  performers := parameters.foldl (fun performers param =>
    match param.evaluator, param.performer with
    | some evaluator, some performer => performers.insert evaluator.action performer
    | _, _ => performers) ∅

/-- What a rule sends to the collector. -/
structure ChanItem where
  action : String
  processed : List Candidate
  deriving DecidableEq, Repr

/-- The selectors one by one. -/
def selectAll : List Selector → List Candidate → Except String (List Candidate)
  | [], processed => .ok processed
  | select :: rest, processed =>
    match select processed with
    | .error err => .error err
    | .ok selected => selectAll rest selected

/-- What the goroutine of a rule comes to. -/
def Rule.outcome (rule : Rule) (artifacts : List Candidate) : Except String ChanItem :=
  match selectAll rule.selectors artifacts with
  | .error err => .error err
  | .ok selected =>
    match rule.evaluator.process selected with
    | .error err => .error err
    | .ok processed => .ok ⟨rule.evaluator.action, processed⟩

/-- A selector or the evaluator of the rule returns an error. -/
def Rule.Errs (rule : Rule) (artifacts : List Candidate) : Prop :=
  ∃ err, rule.outcome artifacts = .error err

/-! ## The goroutines -/

/-- How far the goroutine of a rule is. -/
inductive Stage
  | evaluating
  | sending (outcome : Except String ChanItem)
  | leaving
  | finished
  deriving Repr

structure Goroutine where
  rule : Rule
  stage : Stage := .evaluating

inductive CollectorStage
  | receiving
  | leaving
  | finished
  deriving DecidableEq, Repr

/-- How far the main goroutine is.  While it performs, it has the actions that remain and the
results so far. -/
inductive MainStage
  | waiting
  | closing
  | joining
  | performing (remaining : List String) (results : List Result)
  | returned (result : Except String (List Result))

/-- Candidates by their hash. -/
abbrev CHash := AList fun _ : String => Candidate

/-- All goroutines, with the channels and the variables they share.  `performed` is a record
of the calls of performers. -/
structure ProcState where
  goroutines : List Goroutine
  collector : CollectorStage := .receiving
  main : MainStage := .waiting
  resChan : Channel ChanItem 1 := .make _ _
  errChan : Channel String 1 := .make _ _
  done : Channel Unit 1 := .make _ _
  wg : ℕ
  err : Option String := none
  processedCandidates : AList (fun _ : String => CHash) := ∅
  performed : List (String × List Candidate) := []

inductive ProcAction
  | evaluate (index : ℕ)
  | send (index : ℕ)
  | wgDone (index : ℕ)
  | receiveResult
  | receiveError
  | receiveClosed
  | signal
  | wait
  | close
  | join
  | perform (action : String) (candidates : List Candidate)
  | finish
  deriving DecidableEq, Repr

/-- `processor.Process` at its start. -/
def Processor.start (p : Processor) (artifacts : List Candidate) : ProcState where
  goroutines := p.evaluators.map fun rule => { rule }
  wg := p.evaluators.length
  -- without artifacts it returns at once
  main := if artifacts = [] then .returned (.ok []) else .waiting

namespace ProcState

variable (state : ProcState)

def setStage (index : ℕ) (rule : Rule) (stage : Stage) : ProcState :=
  { state with goroutines := state.goroutines.set index ⟨rule, stage⟩ }

/-- The candidates of an action by their hash. -/
def hashOf (action : String) : CHash :=
  (state.processedCandidates.lookup action).getD ∅

/-- Add the candidates of a result to those of its action, without duplicates. -/
def merge (item : ChanItem) : ProcState :=
  let merged := item.processed.foldl (fun hash candidate => hash.insert candidate.hash candidate)
    (state.hashOf item.action)
  { state with processedCandidates := state.processedCandidates.insert item.action merged }

/-- Wrap an error that was received. -/
def collectErr (err : String) : ProcState :=
  { state with err := some (match state.err with
    | none => s!"artifact processing error: {err}"
    | some before => s!"{before}: {err}") }

/-- What the main goroutine does once the collector is done. -/
def afterJoin : MainStage :=
  match state.err with
  | some err => .returned (.error err)
  | none => .performing state.processedCandidates.keys []

/-- `toList`, in some order. -/
def candidatesOf (action : String) : List Candidate :=
  (state.hashOf action).entries.map Sigma.snd

end ProcState

/-- The results of an action, and whether its performer was called. -/
def Processor.performAction (p : Processor) (action : String) (candidates : List Candidate) :
    List Result × List (String × List Candidate) :=
  match p.performers.lookup action with
  | some performer =>
    (match performer candidates with
      | .ok results => results
      | .error err => candidates.map fun target => ⟨target, some err⟩,
    [(action, candidates)])
  | none =>
    (candidates.map fun target =>
      ⟨target, some s!"no performer added for action {action} in OR processor"⟩, [])

/-- One move of one goroutine. -/
def Processor.step (p : Processor) (artifacts : List Candidate) (state : ProcState) :
    ProcAction → Option ProcState
  | .evaluate index =>
    match state.goroutines[index]? with
    | some ⟨rule, .evaluating⟩ =>
      some (state.setStage index rule (.sending (rule.outcome artifacts)))
    | _ => none
  | .send index =>
    match state.goroutines[index]? with
    | some ⟨rule, .sending (.ok item)⟩ => (state.resChan.send item).map fun resChan =>
      { state.setStage index rule .leaving with resChan }
    | some ⟨rule, .sending (.error err)⟩ => (state.errChan.send err).map fun errChan =>
      { state.setStage index rule .leaving with errChan }
    | _ => none
  | .wgDone index =>
    match state.goroutines[index]? with
    | some ⟨rule, .leaving⟩ =>
      some { state.setStage index rule .finished with wg := state.wg - 1 }
    | _ => none
  | .receiveResult =>
    match state.collector, state.resChan.receive? with
    | .receiving, some (item, resChan) => some { state.merge item with resChan }
    | _, _ => none
  | .receiveError =>
    match state.collector, state.errChan.receive? with
    | .receiving, some (err, errChan) => some { state.collectErr err with errChan }
    | _, _ => none
  | .receiveClosed =>
    match state.collector with
    | .receiving => if state.resChan.drained then some { state with collector := .leaving }
        else none
    | _ => none
  | .signal =>
    match state.collector with
    | .leaving => (state.done.send ()).map fun done => { state with collector := .finished, done }
    | _ => none
  | .wait =>
    match state.main with
    | .waiting => if state.wg = 0 then some { state with main := .closing } else none
    | _ => none
  | .close =>
    match state.main with
    | .closing => some { state with resChan := state.resChan.close, main := .joining }
    | _ => none
  | .join =>
    match state.main, state.done.receive? with
    | .joining, some (_, done) =>
      some { state with done, main := state.afterJoin }
    | _, _ => none
  | .perform action candidates =>
    match state.main with
    | .performing remaining results =>
      if action ∈ remaining ∧ candidates.Perm (state.candidatesOf action) then
        some { state with
          main := .performing (remaining.erase action)
            (results ++ (p.performAction action candidates).1)
          performed := state.performed ++ (p.performAction action candidates).2 }
      else none
    | _ => none
  | .finish =>
    match state.main with
    | .performing [] results => some { state with main := .returned (.ok results) }
    | _ => none

end Harbor.Retention
