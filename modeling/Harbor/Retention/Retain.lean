import Harbor.Retention.ProcessorRuns
import Harbor.Tags.Immutable

/-!
# What retention deletes

The rules of a retention policy all have the action `retain`.  Its performer is given the
candidates that some rule retains, and deletes the other ones of the repository, except for those
that are immutable.  Candidates are told apart by their hash, so one candidate that is retained
or immutable protects all with its hash.  If the immutability of a candidate cannot be told, it
counts as immutable.

The performer is called once the collector has a result.  Without rules there is none, and
nothing is deleted.
-/

namespace Harbor.Retention

open Harbor.Concurrency List

/-! ## The performer -/

/-- What the matcher of immutability rules works with: the rules of each project, the evaluators
as they see a candidate with its times, and which of its lookups fail. -/
structure ImmutableMatcher where
  rules : ℤ → List Tags.Rule
  engine : Candidate → Tags.Engine
  lookups : Candidate → Tags.Lookups := fun _ => {}

namespace ImmutableMatcher

variable (matcher : ImmutableMatcher) (candidate : Candidate)

/-- The part of a candidate that `isImmutable` passes on. -/
def view : Tags.Candidate :=
  { repository := candidate.repository, tags := candidate.tags }

def «match» : Except String Bool :=
  if (matcher.lookups candidate).rules then .error "failed to list the immutable rules"
  else Tags.matchRules (matcher.engine candidate) (matcher.lookups candidate) (view candidate)
    (matcher.rules candidate.namespaceID)

def isImmutable : Bool :=
  match matcher.match candidate with
  | .error _ => true
  | .ok matched => matched

end ImmutableMatcher

/-- The results of a call of the performer, and the candidates it has deleted. -/
structure Cleared where
  results : List Result := []
  deleted : List Candidate := []
  deriving DecidableEq, Repr

/-- `retainAction`, with the matcher and the client.  What the client answers may depend on how
many candidates were deleted before. -/
structure RetainAction where
  all : List Candidate
  isDryRun : Bool
  matcher : ImmutableMatcher
  delete : ℕ → Candidate → Option String

variable (candidates : List Candidate)

namespace RetainAction

variable (ra : RetainAction)

def retainedShare : List String :=
  candidates.map Candidate.hash

def immutableShare : List String :=
  (ra.all.filter fun c =>
    c.hash ∉ retainedShare candidates ∧ ra.matcher.isImmutable c).map Candidate.hash

/-- One turn of the loop of `Perform`. -/
def clear (cleared : Cleared) (c : Candidate) : Cleared :=
  if c.hash ∈ retainedShare candidates then cleared
  else if c.hash ∈ ra.immutableShare candidates then
    { cleared with results := cleared.results ++ [⟨c, some "Immutable tag"⟩] }
  else if ra.isDryRun then { cleared with results := cleared.results ++ [⟨c, none⟩] }
  else
    { results := cleared.results ++ [⟨c, ra.delete cleared.deleted.length c⟩]
      deleted := cleared.deleted ++ [c] }

def perform : Cleared :=
  ra.all.foldl (ra.clear candidates) {}

def performer : Performer :=
  fun candidates => .ok (ra.perform candidates).results

end RetainAction

variable (ra : RetainAction)

/-- `basicBuilder.Build` for rules that all have the action `retain`: every rule gets a performer
for all candidates. -/
def buildProcessor (rules : List Rule) : Processor :=
  newProcessor (rules.map fun rule => ⟨some rule.evaluator, rule.selectors, some ra.performer⟩)

variable (state : ProcState)

/-- The candidates that were deleted in a run. -/
def deletions : List Candidate :=
  state.performed.flatMap fun call => (ra.perform call.2).deleted

/-- The hashes in the result of a rule. -/
def Rule.retained (rule : Rule) (artifacts : List Candidate) : List String :=
  match rule.outcome artifacts with
  | .ok item => item.processed.map Candidate.hash
  | .error _ => []

/-- The hashes in the results of the rules. -/
def retainedHashes (rules : List Rule) (artifacts : List Candidate) : List String :=
  rules.flatMap fun rule => rule.retained artifacts

/-! ## What the performer does -/

section Matcher

variable {matcher : ImmutableMatcher} {candidate : Candidate}

theorem matchRules_eq_false_iff {engine : Tags.Engine} {lookups : Tags.Lookups}
    {art : Tags.Candidate} {rules : List Tags.Rule} :
    Tags.matchRules engine lookups art rules = .ok false ↔
      ∀ rule ∈ rules, rule.disabled = false →
        rule.evaluate engine (lookups.evaluation rule.id) art = .ok false := by
  induction rules with
  | nil => simp [Tags.matchRules]
  | cons rule rest ih =>
    rw [Tags.matchRules, forall_mem_cons]
    cases hdisabled : rule.disabled with
    | true => simp [ih]
    | false =>
      cases hmatched : rule.evaluate engine (lookups.evaluation rule.id) art with
      | error err => simp
      | ok matched =>
        cases matched with
        | true => simp
        | false => simp [ih]

open ImmutableMatcher

/-- A rule of its project matches the candidate, or one of the lookups fails. -/
def ImmutableMatcher.Protects (matcher : ImmutableMatcher) (candidate : Candidate) : Prop :=
  (matcher.lookups candidate).rules = true ∨
    ∃ rule ∈ matcher.rules candidate.namespaceID, rule.disabled = false ∧
      (rule.Matches (matcher.engine candidate) (view candidate) ∨
        ∃ err, rule.evaluate (matcher.engine candidate)
          ((matcher.lookups candidate).evaluation rule.id)
          (view candidate) = .error err)

/-- A candidate counts as immutable if an enabled rule matches it, or if that cannot be told. -/
theorem isImmutable_iff : matcher.isImmutable candidate = true ↔ matcher.Protects candidate := by
  unfold ImmutableMatcher.Protects
  have hmatch : matcher.isImmutable candidate = true ↔ matcher.match candidate ≠ .ok false := by
    unfold isImmutable
    cases matcher.match candidate with
    | error err | ok matched => simp
  rw [hmatch, ImmutableMatcher.match]
  split_ifs with hrules
  · simp [hrules]
  · rw [ne_eq, matchRules_eq_false_iff, or_iff_right hrules]
    push Not
    refine exists_congr fun rule => and_congr_right fun _ => and_congr_right fun henabled => ?_
    constructor
    · intro hne
      cases hmatched : rule.evaluate (matcher.engine candidate)
          ((matcher.lookups candidate).evaluation rule.id) (view candidate) with
      | error err => exact .inr ⟨err, rfl⟩
      | ok matched =>
        cases matched with
        | true => exact .inl ⟨henabled, Tags.Rule.evaluate_of_ok hmatched⟩
        | false => exact absurd hmatched hne
    · rintro (hmatches | ⟨err, herr⟩) hfalse
      · exact absurd (Tags.Rule.evaluate_of_ok hfalse) (by rw [hmatches.2]; simp)
      · rw [herr] at hfalse
        cases hfalse

end Matcher

section Perform

variable {ra : RetainAction} {candidates : List Candidate}

/-- The candidates that the loop reports, and those that it deletes. -/
theorem foldl_clear (cs : List Candidate) (cleared : Cleared) :
    (cs.foldl (ra.clear candidates) cleared).results.map Result.target =
        cleared.results.map Result.target ++
          (cs.filter fun c => c.hash ∉ RetainAction.retainedShare candidates) ∧
      (cs.foldl (ra.clear candidates) cleared).deleted =
        cleared.deleted ++ if ra.isDryRun then [] else
          cs.filter fun c => c.hash ∉ RetainAction.retainedShare candidates ∧
            c.hash ∉ ra.immutableShare candidates := by
  induction cs generalizing cleared with
  | nil => simp
  | cons c rest ih =>
    obtain ⟨hresults, hdeleted⟩ := ih (ra.clear candidates cleared c)
    rw [foldl_cons, hresults, hdeleted, RetainAction.clear]
    by_cases hretained : c.hash ∈ RetainAction.retainedShare candidates
    · simp [hretained]
    by_cases himmutable : c.hash ∈ ra.immutableShare candidates
    · simp [hretained, himmutable]
    cases hdry : ra.isDryRun with
    | true | false => simp [hretained, himmutable]

/-- Some candidate with this hash counts as immutable. -/
def RetainAction.SharesImmutable (hash : String) : Prop :=
  ∃ c ∈ ra.all, c.hash = hash ∧ ra.matcher.isImmutable c = true

instance (hash : String) : Decidable (ra.SharesImmutable hash) :=
  inferInstanceAs (Decidable (∃ c ∈ ra.all, c.hash = hash ∧ ra.matcher.isImmutable c = true))

theorem mem_immutableShare_iff {hash : String}
    (hretained : hash ∉ RetainAction.retainedShare candidates) :
    hash ∈ ra.immutableShare candidates ↔ ra.SharesImmutable hash := by
  unfold RetainAction.immutableShare RetainAction.SharesImmutable
  rw [mem_map]
  constructor
  · rintro ⟨c, hc, rfl⟩
    obtain ⟨hmem, hkept⟩ := mem_filter.mp hc
    exact ⟨c, hmem, rfl, (of_decide_eq_true hkept).2⟩
  · rintro ⟨c, hmem, rfl, himmutable⟩
    exact ⟨c, mem_filter.mpr ⟨hmem, decide_eq_true ⟨hretained, himmutable⟩⟩, rfl⟩

/-- `Perform` reports the candidates that are not retained, and deletes those of them that share
their hash with no immutable one. -/
theorem perform_spec {retained : List String}
    (hretained : ∀ hash, hash ∈ RetainAction.retainedShare candidates ↔ hash ∈ retained) :
    (ra.perform candidates).results.map Result.target =
        (ra.all.filter fun c => c.hash ∉ retained) ∧
      (ra.perform candidates).deleted = if ra.isDryRun then [] else
        ra.all.filter fun c => c.hash ∉ retained ∧ ¬ ra.SharesImmutable c.hash := by
  obtain ⟨hresults, hdeleted⟩ := @foldl_clear ra candidates ra.all {}
  refine ⟨?_, ?_⟩
  · rw [RetainAction.perform, hresults]
    simp [hretained]
  · rw [RetainAction.perform, hdeleted, nil_append]
    congr 1
    refine filter_congr fun c _ => decide_eq_decide.mpr ?_
    rw [hretained]
    refine and_congr_right fun hkept => not_congr (mem_immutableShare_iff ?_)
    rwa [hretained]

end Perform

/-! ## What the collector has -/

variable {p : Processor} {artifacts : List Candidate} {state next : ProcState} {action : ProcAction}

/-- The candidates are found under their hashes. -/
def CHash.Keyed (hashes : CHash) : Prop :=
  ∀ entry ∈ hashes.entries, entry.2.hash = entry.1

variable {index : ℕ} {rule : Rule} {item : ChanItem}

theorem mem_foldl_insert_hash (processed : List Candidate) (hashes : CHash) (hash : String) :
    hash ∈ processed.foldl (fun hashes c => hashes.insert c.hash c) hashes ↔
      hash ∈ hashes ∨ hash ∈ processed.map Candidate.hash := by
  induction processed generalizing hashes with
  | nil => simp
  | cons c rest ih =>
    rw [foldl_cons, ih, AList.mem_insert, map_cons, mem_cons]
    tauto

theorem keyed_foldl_insert (processed : List Candidate) {hashes : CHash}
    (hkeyed : CHash.Keyed hashes) :
    CHash.Keyed (processed.foldl (fun hashes c => hashes.insert c.hash c) hashes) := by
  induction processed generalizing hashes with
  | nil => exact hkeyed
  | cons c rest ih =>
    refine ih fun entry hentry => ?_
    rcases mem_cons.mp hentry with rfl | hold
    · rfl
    · exact hkeyed entry ((kerase_sublist _ _).mem hold)

theorem hashOf_merge (item : ChanItem) :
    (state.merge item).hashOf item.action =
      item.processed.foldl (fun hashes c => hashes.insert c.hash c) (state.hashOf item.action) := by
  simp [ProcState.merge, ProcState.hashOf]

/-- The hashes under which the collector has candidates to retain. -/
def ProcState.Retained (hash : String) : Prop :=
  hash ∈ state.hashOf "retain"

/-- The result of a rule is with the collector. -/
def ProcState.Merged (item : ChanItem) : Prop :=
  "retain" ∈ state.processedCandidates ∧
    ∀ hash ∈ item.processed.map Candidate.hash, state.Retained hash

/-- Every rule retains. -/
def Processor.Retains (p : Processor) (artifacts : List Candidate) : Prop :=
  ∀ rule ∈ p.evaluators, ∃ processed, rule.outcome artifacts = .ok ⟨"retain", processed⟩

/-- What the channels and the collector have are results of rules, and the results of rules that
have been sent are there. -/
structure Collects (p : Processor) (artifacts : List Candidate) (state : ProcState) : Prop where
  rules : state.goroutines.map Goroutine.rule = p.evaluators
  clean : state.err = none ∧ state.errChan.buffer = []
  sent : ∀ item ∈ state.resChan.buffer, ∃ rule ∈ p.evaluators, rule.outcome artifacts = .ok item
  actions : ∀ name ∈ state.processedCandidates, name = "retain" ∧ p.evaluators ≠ []
  keyed : CHash.Keyed (state.hashOf "retain")
  sound : ∀ hash, state.Retained hash → hash ∈ retainedHashes p.evaluators artifacts
  complete : ∀ g ∈ state.goroutines, g.stage = .leaving ∨ g.stage = .finished →
    ∀ item, g.rule.outcome artifacts = .ok item → item ∈ state.resChan.buffer ∨ state.Merged item

theorem collects_start : Collects p artifacts (p.start artifacts) where
  rules := by simp [Processor.start, Function.comp_def]
  clean := ⟨rfl, rfl⟩
  sent item hitem := by cases hitem
  actions name hname := absurd hname (AList.notMem_empty name)
  keyed entry hentry := by cases hentry
  sound hash hhash := absurd hhash (AList.notMem_empty hash)
  complete g hg hstage := by
    obtain ⟨rule, -, rfl⟩ := mem_map.mp hg
    rcases hstage with hstage | hstage <;> cases hstage

theorem map_rule_setStage {before after : Stage}
    (hrule : state.goroutines[index]? = some ⟨rule, before⟩) :
    (state.setStage index rule after).goroutines.map Goroutine.rule =
      state.goroutines.map Goroutine.rule := by
  obtain ⟨hindex, hg⟩ := List.getElem?_eq_some_iff.mp hrule
  have hkept : (state.goroutines.set index state.goroutines[index]) = _ := set_getElem_self hindex
  rw [ProcState.setStage, map_set, ← hkept, map_set, hg, set_set]

theorem Collects.rule_mem {stage : Stage} (hcollects : Collects p artifacts state)
    (hrule : state.goroutines[index]? = some ⟨rule, stage⟩) : rule ∈ p.evaluators := by
  rw [← hcollects.rules]
  exact mem_map.mpr ⟨_, mem_of_getElem? hrule, rfl⟩

theorem mem_retainedHashes {hash : String} (hrule : rule ∈ p.evaluators)
    (houtcome : rule.outcome artifacts = .ok item)
    (hhash : hash ∈ item.processed.map Candidate.hash) :
    hash ∈ retainedHashes p.evaluators artifacts := by
  refine mem_flatMap.mpr ⟨rule, hrule, ?_⟩
  rw [Rule.retained, houtcome]
  exact hhash

theorem Collects.receive {resChan : Channel ChanItem 1} (hcollects : Collects p artifacts state)
    (hretains : p.Retains artifacts) (hbuffer : state.resChan.buffer = item :: resChan.buffer) :
    Collects p artifacts { state.merge item with resChan } := by
  have hmem : item ∈ state.resChan.buffer := by
    rw [hbuffer]
    exact mem_cons_self
  obtain ⟨rule, hrule, houtcome⟩ := hcollects.sent item hmem
  obtain ⟨processed, hprocessed⟩ := hretains rule hrule
  cases hprocessed.symm.trans houtcome
  have hhashes := @hashOf_merge state ⟨"retain", processed⟩
  have hretained : ∀ hash, (state.merge ⟨"retain", processed⟩).Retained hash ↔
      state.Retained hash ∨ hash ∈ processed.map Candidate.hash := by
    intro hash
    rw [ProcState.Retained, hhashes]
    exact mem_foldl_insert_hash processed _ hash
  refine ⟨hcollects.rules, hcollects.clean, ?_, ?_, ?_, ?_, ?_⟩
  · intro other hother
    refine hcollects.sent other ?_
    rw [hbuffer]
    exact mem_cons_of_mem _ hother
  · intro name hname
    rcases (AList.mem_insert _).mp hname with rfl | hold
    · exact ⟨rfl, ne_nil_of_mem hrule⟩
    · exact hcollects.actions name hold
  · have hkeyed := keyed_foldl_insert processed hcollects.keyed
    rw [← hhashes] at hkeyed
    exact hkeyed
  · intro hash hhash
    rcases (hretained hash).mp hhash with hold | hnew
    · exact hcollects.sound hash hold
    · exact mem_retainedHashes hrule houtcome hnew
  · intro g hg hstage other hother
    rcases hcollects.complete g hg hstage other hother with hwaiting | hmerged
    · rw [hbuffer] at hwaiting
      rcases mem_cons.mp hwaiting with rfl | hlater
      · refine .inr ⟨(AList.mem_insert _).mpr (.inl rfl), fun hash hhash => ?_⟩
        exact (hretained hash).mpr (.inr hhash)
      · exact .inl hlater
    · refine .inr ⟨(AList.mem_insert _).mpr (.inr hmerged.1), fun hash hhash => ?_⟩
      exact (hretained hash).mpr (.inl (hmerged.2 hash hhash))

theorem Moves.collects (hmove : Moves p artifacts state action next)
    (hretains : p.Retains artifacts) (hinv : ProcInv artifacts state)
    (hcollects : Collects p artifacts state) : Collects p artifacts next := by
  cases hmove with
  | evaluate hrule =>
    refine { hcollects with
      rules := (map_rule_setStage hrule).trans hcollects.rules
      complete := forall_mem_setStage hcollects.complete fun hstage => ?_ }
    rcases hstage with hstage | hstage <;> cases hstage
  | @sendResult index rule item resChan hrule hsend =>
    have hbuffer := (Channel.send_eq_some hsend).1
    have houtcome := hinv.outcome _ (mem_of_getElem? hrule) _ rfl
    refine { hcollects with
      rules := (map_rule_setStage hrule).trans hcollects.rules
      sent := ?_
      complete := ?_ }
    · rw [hbuffer]
      intro other hother
      rcases mem_append.mp hother with hold | hnew
      · exact hcollects.sent other hold
      · obtain rfl := mem_singleton.mp hnew
        exact ⟨rule, hcollects.rule_mem hrule, houtcome.symm⟩
    · rw [hbuffer]
      refine forall_mem_setStage (fun g hg hstage other hother => ?_) fun _ other hother => ?_
      · exact (hcollects.complete g hg hstage other hother).imp_left (mem_append_left _)
      · cases houtcome.trans hother
        exact .inl (mem_append_right _ mem_cons_self)
  | sendError hrule hsend =>
    have houtcome := hinv.outcome _ (mem_of_getElem? hrule) _ rfl
    obtain ⟨processed, hprocessed⟩ := hretains _ (hcollects.rule_mem hrule)
    cases houtcome.trans hprocessed
  | @wgDone index rule hrule =>
    refine { hcollects with
      rules := (map_rule_setStage hrule).trans hcollects.rules
      complete := forall_mem_setStage hcollects.complete fun _ => ?_ }
    exact hcollects.complete ⟨rule, .leaving⟩ (mem_of_getElem? hrule) (.inl rfl)
  | receiveResult hcollector hreceive =>
    exact hcollects.receive hretains (Channel.receive?_eq_some hreceive).1
  | receiveError hcollector hreceive =>
    have hbuffer := (Channel.receive?_eq_some hreceive).1
    rw [hcollects.clean.2] at hbuffer
    cases hbuffer
  | receiveClosed | signal | wait | close | join | perform | finish => exact { hcollects with }

/-! ## What the main goroutine performs -/

/-- The main goroutine goes over the actions: it has not called the performer yet, or it has done
so once. -/
def Performs (p : Processor) (state : ProcState) (remaining : List String)
    (results : List Result) : Prop :=
  (remaining = state.processedCandidates.keys ∧ results = [] ∧ state.performed = []) ∨
    remaining = [] ∧ p.evaluators ≠ [] ∧
      ∃ candidates, candidates.Perm (state.candidatesOf "retain") ∧
      results = (p.performAction "retain" candidates).1 ∧
      state.performed = (p.performAction "retain" candidates).2

/-- What has been performed at a stage of the main goroutine. -/
def MainStage.Performed (p : Processor) (state : ProcState) : MainStage → Prop
  | .performing remaining results => Performs p state remaining results
  | .returned (.ok results) => Performs p state [] results
  | .returned (.error _) => False
  | _ => state.performed = []

theorem keys_eq_singleton {name : String} (hcollects : Collects p artifacts state)
    (hname : name ∈ state.processedCandidates.keys) :
    name = "retain" ∧ p.evaluators ≠ [] ∧ state.processedCandidates.keys = ["retain"] := by
  obtain ⟨rfl, hrules⟩ := hcollects.actions name hname
  refine ⟨rfl, hrules, ?_⟩
  refine perm_singleton.mp ((perm_ext_iff_of_nodup
    state.processedCandidates.keys_nodup (nodup_singleton _)).mpr fun other => ?_)
  rw [mem_singleton]
  exact ⟨fun hother => (hcollects.actions other hother).1, fun hother => hother ▸ hname⟩

theorem Moves.performed (hmove : Moves p artifacts state action next)
    (hinv : ProcInv artifacts state) (hcollects : Collects p artifacts state)
    (hperformed : state.main.Performed p state) : next.main.Performed p next := by
  cases hmove with
  | evaluate | sendResult | sendError | wgDone | receiveError | receiveClosed | signal =>
    exact hperformed
  | receiveResult hcollector hreceive =>
    -- the collector still receives, so nothing has been performed
    have hrank : ¬ 3 ≤ state.main.rank := by
      intro hrank
      have hjoined := hinv.joined hrank
      rw [hcollector] at hjoined
      cases hjoined
    cases hmain : state.main with
    | waiting | closing | joining =>
      rw [hmain] at hperformed
      simp only [ProcState.merge, hmain]
      exact hperformed
    | performing remaining results | returned result => simp [hmain, MainStage.rank] at hrank
  | wait hmain | close hmain =>
    rw [hmain] at hperformed
    exact hperformed
  | join hmain hreceive =>
    rw [hmain] at hperformed
    simp only [ProcState.afterJoin, hcollects.clean.1]
    exact .inl ⟨rfl, rfl, hperformed⟩
  | perform hmain hname hcandidates =>
    rw [hmain] at hperformed
    rcases hperformed with ⟨rfl, rfl, hnone⟩ | ⟨rfl, -⟩
    · obtain ⟨rfl, hrules, hkeys⟩ := keys_eq_singleton hcollects hname
      refine .inr ⟨by rw [hkeys]; simp, hrules, _, hcandidates, rfl, ?_⟩
      simp [hnone]
    · cases hname
  | finish hmain =>
    rw [hmain] at hperformed
    exact hperformed

/-! ## Runs -/

/-- Once the collector is done, it has what all rules retain. -/
theorem Collects.retained_iff (hcollects : Collects p artifacts state)
    (hretains : p.Retains artifacts) (hinv : ProcInv artifacts state)
    (hrank : 3 ≤ state.main.rank) :
    (∀ hash, state.Retained hash ↔ hash ∈ retainedHashes p.evaluators artifacts) ∧
      (p.evaluators ≠ [] → "retain" ∈ state.processedCandidates) := by
  have hdrained := hinv.drained (by rw [hinv.joined hrank]; simp)
  have hempty := (Channel.drained_iff.mp hdrained).2
  have hmerged : ∀ rule ∈ p.evaluators, ∀ item, rule.outcome artifacts = .ok item →
      state.Merged item := by
    intro rule hrule item houtcome
    rw [← hcollects.rules] at hrule
    obtain ⟨g, hg, rfl⟩ := mem_map.mp hrule
    have hfinished := hinv.finished (by omega) g hg
    have hsent := hcollects.complete g hg (.inr hfinished) item houtcome
    rw [hempty] at hsent
    exact hsent.resolve_left not_mem_nil
  refine ⟨fun hash => ⟨hcollects.sound hash, fun hhash => ?_⟩, fun hrules => ?_⟩
  · obtain ⟨rule, hrule, hretained⟩ := mem_flatMap.mp hhash
    obtain ⟨processed, houtcome⟩ := hretains rule hrule
    rw [Rule.retained, houtcome] at hretained
    exact (hmerged rule hrule _ houtcome).2 hash hretained
  · obtain ⟨rule, hrule⟩ := exists_mem_of_ne_nil _ hrules
    obtain ⟨processed, houtcome⟩ := hretains rule hrule
    exact (hmerged rule hrule _ houtcome).1

theorem Collects.mem_retainedShare_iff (hcollects : Collects p artifacts state)
    {candidates : List Candidate} (hcandidates : candidates.Perm (state.candidatesOf "retain"))
    (hash : String) : hash ∈ RetainAction.retainedShare candidates ↔ state.Retained hash := by
  rw [RetainAction.retainedShare, (hcandidates.map Candidate.hash).mem_iff,
    ProcState.candidatesOf, map_map, mem_map]
  constructor
  · rintro ⟨entry, hentry, rfl⟩
    rw [Function.comp_apply, hcollects.keyed entry hentry]
    exact AList.mem_keys.mpr (mem_map.mpr ⟨entry, hentry, rfl⟩)
  · intro hhash
    obtain ⟨entry, hentry, rfl⟩ := mem_map.mp (AList.mem_keys.mp hhash)
    exact ⟨entry, hentry, hcollects.keyed entry hentry⟩

section Build

variable {ra : RetainAction} {rules : List Rule} {result : Except String (List Result)}

theorem evaluators_buildProcessor (hselectors : ∀ rule ∈ rules, rule.selectors ≠ []) :
    (buildProcessor ra rules).evaluators = rules := by
  rw [buildProcessor, newProcessor, filterMap_map]
  refine (filterMap_eq_map_iff_forall_eq_some.mpr fun rule hrule => ?_).trans (map_id rules)
  obtain ⟨evaluator, selectors⟩ := rule
  cases selectors with
  | nil => exact absurd rfl (hselectors _ hrule)
  | cons first others => rfl

/-- Of the performers for the action the last one counts, and they are all the same. -/
theorem lookup_buildProcessor (hrules : rules ≠ [])
    (haction : ∀ rule ∈ rules, rule.evaluator.action = "retain") :
    (buildProcessor ra rules).performers.lookup "retain" = some ra.performer := by
  obtain ⟨init, last, rfl⟩ := (eq_nil_or_concat' rules).resolve_left hrules
  rw [buildProcessor, newProcessor, map_append, foldl_append]
  simp only [map_cons, map_nil, foldl_cons, foldl_nil]
  rw [haction last (by simp)]
  exact AList.lookup_insert _

theorem retains_buildProcessor (hselectors : ∀ rule ∈ rules, rule.selectors ≠ [])
    (haction : ∀ rule ∈ rules, rule.evaluator.action = "retain")
    (hok : ∀ rule ∈ rules, ¬ rule.Errs artifacts) :
    (buildProcessor ra rules).Retains artifacts := by
  rw [Processor.Retains, evaluators_buildProcessor hselectors]
  intro rule hrule
  have hnone := hok rule hrule
  rw [← haction rule hrule]
  unfold Rule.Errs Rule.outcome at hnone
  unfold Rule.outcome
  cases hselected : selectAll rule.selectors artifacts with
  | error err => simp [hselected] at hnone
  | ok selected =>
    cases hprocessed : rule.evaluator.process selected with
    | error err => simp [hselected, hprocessed] at hnone
    | ok processed => exact ⟨processed, by simp [hprocessed]⟩

variable {actions : List ProcAction} {final : ProcState}

theorem returned_exec_nil
    (hrun : exec (p.step []) (p.start []) actions = some final) :
    final.main = .returned (.ok []) ∧ final.performed = [] := by
  refine exec_invariant (fun state => state.main = .returned (.ok []) ∧ state.performed = [])
    ?_ ⟨rfl, rfl⟩ (everyStep_true _ actions) hrun
  rintro state action next ⟨hmain, hperformed⟩ hstep -
  cases moves_of_step hstep with
  | evaluate | sendResult | sendError | wgDone | receiveResult | receiveError | receiveClosed
  | signal => exact ⟨hmain, hperformed⟩
  | wait hother | close hother | join hother | perform hother | finish hother =>
    cases hmain.symm.trans hother

theorem retainInv_exec (hartifacts : artifacts ≠ []) (hretains : p.Retains artifacts)
    (hrun : exec (p.step artifacts) (p.start artifacts) actions = some final) :
    ProcInv artifacts final ∧ Collects p artifacts final ∧ final.main.Performed p final := by
  refine exec_invariant (fun state => ProcInv artifacts state ∧ Collects p artifacts state ∧
    state.main.Performed p state) ?_ ⟨procInv_start hartifacts, collects_start, ?_⟩
    (everyStep_true _ actions) hrun
  · rintro state action next ⟨hinv, hcollects, hperformed⟩ hstep -
    have hmove := moves_of_step hstep
    exact ⟨hmove.inv hinv, hmove.collects hretains hinv hcollects,
      hmove.performed hinv hcollects hperformed⟩
  · simp only [Processor.start, hartifacts, if_false]
    exact rfl

theorem weight_start_le : (p.start artifacts).weight ≤ 5 * p.evaluators.length + 8 := by
  by_cases hartifacts : artifacts = []
  · subst hartifacts
    have hrules : rulesWeight (p.start []).goroutines = 5 * p.evaluators.length := by
      simp [rulesWeight, Processor.start, Function.comp_def, Stage.weight, Nat.mul_comm]
    rw [ProcState.weight, hrules]
    simp [Processor.start, CollectorStage.weight, MainStage.weight, Channel.make]
  · exact Nat.le_of_eq (weight_start hartifacts)

/-- The performer was called once with what the rules retain, unless there are no rules. -/
theorem performed_of_returned (hartifacts : artifacts ≠ []) (hretains : p.Retains artifacts)
    (hrun : exec (p.step artifacts) (p.start artifacts) actions = some final)
    (hmain : final.main = .returned result) :
    (p.evaluators = [] ∧ result = .ok [] ∧ final.performed = []) ∨
      p.evaluators ≠ [] ∧ ∃ candidates,
        (∀ hash, hash ∈ RetainAction.retainedShare candidates ↔
          hash ∈ retainedHashes p.evaluators artifacts) ∧
        result = .ok (p.performAction "retain" candidates).1 ∧
        final.performed = (p.performAction "retain" candidates).2 := by
  obtain ⟨hinv, hcollects, hperformed⟩ := retainInv_exec hartifacts hretains hrun
  obtain ⟨hretained, hkey⟩ := hcollects.retained_iff hretains hinv (by simp [hmain, MainStage.rank])
  rw [hmain] at hperformed
  cases result with
  | error err => exact hperformed.elim
  | ok results =>
    rcases hperformed with
      ⟨hkeys, rfl, hnone⟩ | ⟨-, hrules, candidates, hcandidates, rfl, hcalled⟩
    · refine .inl ⟨?_, rfl, hnone⟩
      by_contra hrules
      have hmem := AList.mem_keys.mp (hkey hrules)
      rw [← hkeys] at hmem
      cases hmem
    · refine .inr ⟨hrules, candidates, fun hash => ?_, rfl, hcalled⟩
      rw [hcollects.mem_retainedShare_iff hcandidates, hretained]

theorem performAction_buildProcessor (hrules : rules ≠ [])
    (haction : ∀ rule ∈ rules, rule.evaluator.action = "retain") (candidates : List Candidate) :
    (buildProcessor ra rules).performAction "retain" candidates =
      ((ra.perform candidates).results, [("retain", candidates)]) := by
  rw [Processor.performAction, lookup_buildProcessor hrules haction]
  rfl

theorem cleared_of_returned (hselectors : ∀ rule ∈ rules, rule.selectors ≠ [])
    (haction : ∀ rule ∈ rules, rule.evaluator.action = "retain")
    (hretains : (buildProcessor ra rules).Retains ra.all)
    (hrun : exec ((buildProcessor ra rules).step ra.all) ((buildProcessor ra rules).start ra.all)
      actions = some final) (hmain : final.main = .returned result) :
    ∃ results, result = .ok results ∧
      results.map Result.target =
        (if rules = [] then [] else
          ra.all.filter fun c => c.hash ∉ retainedHashes rules ra.all) ∧
      deletions ra final =
        (if rules = [] ∨ ra.isDryRun then [] else
          ra.all.filter fun c =>
            c.hash ∉ retainedHashes rules ra.all ∧ ¬ ra.SharesImmutable c.hash) := by
  by_cases hall : ra.all = []
  · rw [hall] at hrun ⊢
    obtain ⟨hreturned, hnone⟩ := returned_exec_nil hrun
    obtain rfl := MainStage.returned.inj (hmain.symm.trans hreturned)
    exact ⟨[], rfl, by simp, by simp [deletions, hnone]⟩
  have hevaluators := @evaluators_buildProcessor ra rules hselectors
  rcases performed_of_returned hall hretains hrun hmain with
    ⟨hrules, rfl, hnone⟩ | ⟨hrules, candidates, hretained, rfl, hcalled⟩
  · rw [hevaluators] at hrules
    exact ⟨[], rfl, by simp [hrules], by simp [deletions, hnone, hrules]⟩
  rw [hevaluators] at hrules hretained
  obtain ⟨hresults, hdeleted⟩ := @perform_spec ra candidates _ hretained
  rw [performAction_buildProcessor hrules haction] at hcalled ⊢
  refine ⟨_, rfl, ?_, ?_⟩
  · rw [if_neg hrules]
    exact hresults
  · rw [deletions, hcalled, flatMap_singleton, hdeleted]
    simp [hrules]

/-- If no rule errs, then in every run `Process` returns.  If there are rules, it reports all
candidates that no rule retains, and deletes those of them that share their hash with no
immutable candidate, where a candidate also counts as immutable if that cannot be told. -/
theorem unretained_deleted (hselectors : ∀ rule ∈ rules, rule.selectors ≠ [])
    (haction : ∀ rule ∈ rules, rule.evaluator.action = "retain")
    (hok : ∀ rule ∈ rules, ¬ rule.Errs ra.all)
    (hrun : exec ((buildProcessor ra rules).step ra.all) ((buildProcessor ra rules).start ra.all)
      actions = some final) :
    actions.length ≤ 5 * rules.length + 8 ∧
    ((∀ result, final.main ≠ .returned result) → CanMove (buildProcessor ra rules) ra.all final) ∧
    (∀ result, final.main = .returned result → ∃ results, result = .ok results ∧
      results.map Result.target =
        (if rules = [] then [] else
          ra.all.filter fun c => c.hash ∉ retainedHashes rules ra.all) ∧
      deletions ra final =
        (if rules = [] ∨ ra.isDryRun then [] else
          ra.all.filter fun c =>
            c.hash ∉ retainedHashes rules ra.all ∧ ¬ ra.SharesImmutable c.hash)) ∧
    ∀ hash, ra.SharesImmutable hash ↔
      ∃ c ∈ ra.all, c.hash = hash ∧ ra.matcher.Protects c := by
  have hretains := @retains_buildProcessor ra.all ra rules hselectors haction hok
  refine ⟨?_, ?_, fun result hmain => ?_, fun hash => ?_⟩
  · have hlength := length_le_of_decreasing ProcState.weight
      (fun _ _ _ hstep => (moves_of_step hstep).weight_lt) hrun
    have hstart := @weight_start_le (buildProcessor ra rules) ra.all
    rw [evaluators_buildProcessor hselectors] at hstart
    omega
  · intro hunfinished
    by_cases hall : ra.all = []
    · rw [hall] at hrun
      exact absurd (returned_exec_nil hrun).1 (hunfinished _)
    · exact (procInv_exec hall hrun).can_move hunfinished
  · exact cleared_of_returned hselectors haction hretains hrun hmain
  · exact exists_congr fun c => and_congr_right fun _ => and_congr_right fun _ => isImmutable_iff

end Build

/-- The tag `v1` of every repository is immutable. -/
def releaseMatcher : ImmutableMatcher where
  rules _ := [{ id := 1, projectID := 1, tagSelectors := [⟨"doublestar", "matches", "v1"⟩]
                repositorySelectors := [⟨"doublestar", "repoMatches", ""⟩] }]
  engine _ := ⟨fun pattern text => .ok (pattern = text), fun _ _ _ => .ok true⟩

/-- A rule that retains the candidates with a digest. -/
def retainDigest (digest : String) : Rule :=
  ⟨⟨fun processed => .ok (processed.filter (·.digest = digest)), "retain"⟩, [.ok]⟩

def oneRuleRun : List ProcAction :=
  [.evaluate 0, .send 0, .receiveResult, .wgDone 0, .wait, .close, .receiveClosed, .signal, .join,
    .perform "retain" candidates, .finish]

def helloImage (digest tag : String) : Candidate :=
  { namespaceID := 1, repository := "hello", digest, tags := [tag] }

/-- Of three images one is retained and one is immutable. -/
def helloAction : RetainAction where
  all := [helloImage "5a" "v1", helloImage "6b" "latest", helloImage "7c" "dev"]
  isDryRun := false
  matcher := releaseMatcher
  delete _ _ := none

theorem unretained_deleted_hello :
    ∃ final, exec ((buildProcessor helloAction [retainDigest "6b"]).step helloAction.all)
        ((buildProcessor helloAction [retainDigest "6b"]).start helloAction.all)
        (oneRuleRun [helloImage "6b" "latest"]) = some final ∧
      deletions helloAction final = [helloImage "7c" "dev"] := by
  have hselectors : ∀ rule ∈ [retainDigest "6b"], rule.selectors ≠ [] := by
    simp [retainDigest]
  have haction : ∀ rule ∈ [retainDigest "6b"], rule.evaluator.action = "retain" := by
    simp [retainDigest]
  have hok : ∀ rule ∈ [retainDigest "6b"], ¬ rule.Errs helloAction.all := by
    simp [retainDigest, Rule.Errs, Rule.outcome, selectAll]
  obtain ⟨-, -, hreturned, -⟩ := @unretained_deleted helloAction _
    (oneRuleRun [helloImage "6b" "latest"]) _ hselectors haction hok rfl
  obtain ⟨results, -, -, hdeleted⟩ := hreturned _ rfl
  exact ⟨_, rfl, hdeleted⟩

/-- One image under two candidates. -/
def sharedAction : RetainAction where
  all := [helloImage "5a" "v1", helloImage "5a" "dev"]
  isDryRun := false
  matcher := releaseMatcher
  delete _ _ := none

/-- The rule has a pattern that cannot be read. -/
def unreadableAction : RetainAction :=
  { helloAction with
    matcher.engine := fun _ =>
      ⟨fun _ _ => .error "syntax error in pattern", fun _ _ _ => .ok true⟩ }

/-- A candidate that no rule retains and no immutability rule matches stays, since another one
with its hash is immutable.  Without rules every candidate stays, and so does one on which an
immutability rule cannot be evaluated. -/
theorem mutable_candidate_kept :
    (∃ final, exec ((buildProcessor sharedAction [retainDigest "6b"]).step sharedAction.all)
        ((buildProcessor sharedAction [retainDigest "6b"]).start sharedAction.all)
        (oneRuleRun []) = some final ∧
      final.main = .returned (.ok (sharedAction.all.map fun c => ⟨c, some "Immutable tag"⟩)) ∧
      deletions sharedAction final = []) ∧
    helloImage "5a" "dev" ∈ sharedAction.all ∧
    retainedHashes [retainDigest "6b"] sharedAction.all = [] ∧
    releaseMatcher.match (helloImage "5a" "dev") = .ok false ∧
    (∃ final, exec ((buildProcessor helloAction []).step helloAction.all)
        ((buildProcessor helloAction []).start helloAction.all)
        [.wait, .close, .receiveClosed, .signal, .join, .finish] = some final ∧
      final.main = .returned (.ok []) ∧ deletions helloAction final = []) ∧
    unreadableAction.matcher.match (helloImage "7c" "dev") = .error "syntax error in pattern" ∧
    ∃ final, exec ((buildProcessor unreadableAction [retainDigest "6b"]).step helloAction.all)
        ((buildProcessor unreadableAction [retainDigest "6b"]).start helloAction.all)
        (oneRuleRun [helloImage "6b" "latest"]) = some final ∧
      deletions unreadableAction final = [] :=
  ⟨⟨_, rfl, rfl, rfl⟩, by decide, rfl, rfl, ⟨_, rfl, rfl, rfl⟩, rfl, _, rfl, rfl⟩

end Harbor.Retention
