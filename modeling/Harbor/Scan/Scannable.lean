import Harbor.Artifacts.Walk

/-!
# What can be scanned

The pull gate asks the checker whether an artifact without report can be scanned, and blocks it
if so; a scan collects what it can scan.  Both walk the artifact with option nil, and have read it
with option nil, so the walk follows references only; both pass over accessories.  The scan passes
over artifacts with an unscannable layer before it asks for the capability of the scanner, the
checker afterwards, when it has already found the artifact scannable.
-/

namespace Harbor.Scan

open Harbor.Artifacts

section Walks

variable (s : State) (hasCapability : Artifact → Bool) (hasUnscannableLayer : String → Bool)
  (a : Artifact)

def isAccessory : Bool :=
  s.accessories.any fun acc => acc.artifactID = a.id ∧ acc.digest = a.digest

/-- The function of the walk in `IsScannable`.  What it asks about layers changes nothing. -/
def checkerVisit : Signal :=
  if isAccessory s a then .next
  else if hasCapability a then .stop
  else .next

/-- `checker.IsScannable`, for a project with a scanner: some call of the function has found the
capability. -/
def isScannable (art : Artifact) : Except Error Bool :=
  (s.walk (fun _ => false) (fun _ => checkerVisit s hasCapability) art).map fun visited =>
    visited.any fun a => !isAccessory s a && hasCapability a

/-- An artifact that a scan can start with. -/
def supported : Bool :=
  !isAccessory s a && !hasUnscannableLayer a.digest && hasCapability a

/-- The function of the walk in `collectScanningArtifacts`. -/
def collectVisit : Signal :=
  if isAccessory s a then .next
  else if hasUnscannableLayer a.digest then .next
  else if hasCapability a then .skip
  else .next

/-- `collectScanningArtifacts`: the artifacts, and whether one of them is supported. -/
def collectScanningArtifacts (art : Artifact) : Except Error (List Artifact × Bool) :=
  (s.walk (fun _ => false) (fun _ => collectVisit s hasCapability hasUnscannableLayer) art).map
    fun visited =>
    (visited.filter fun a => !isAccessory s a && !hasUnscannableLayer a.digest &&
      (hasCapability a || !a.isImageIndex),
    visited.any (supported s hasCapability hasUnscannableLayer))

variable {s hasCapability hasUnscannableLayer} {art : Artifact}

/-- Without accessories, the walk finds what can be reached by references. -/
theorem reaches_iff_found {a : Artifact} : s.Reaches art a ↔ s.Found (fun _ => false) art a := by
  simp [State.Reaches, State.Found, State.near, State.accessoryArtifacts, State.loaded]

/-- A walk that goes on unless it meets what it looks for finds it if it is there. -/
theorem any_walk_iff (hvalid : s.Valid) (hdigests : (s.artifacts.map (·.digest)).Nodup)
    (hart : art ∈ s.artifacts) (visit : Artifact → Signal) (looksFor : Artifact → Bool)
    (hvisit : ∀ a, looksFor a = false → visit a = .next) (hfail : ∀ a err, visit a ≠ .fail err) :
    ∃ visited, s.walk (fun _ => false) (fun _ => visit) art = .ok visited ∧
      (visited.any looksFor ↔ ∃ a, s.Reaches art a ∧ looksFor a) := by
  obtain ⟨visited, hok⟩ := @exists_walk s (fun _ => false) (fun _ => visit) art hvalid hart
    fun _ => hfail
  refine ⟨visited, hok, ?_⟩
  rw [List.any_eq_true]
  constructor
  · rintro ⟨a, ha, hlooks⟩
    exact ⟨a, reaches_iff_found.mpr (found_of_mem_walk hok ha), hlooks⟩
  · rintro ⟨a, hreaches, hlooks⟩
    -- had nothing of the kind been visited, the walk would have gone on everywhere
    by_contra hnone
    push Not at hnone
    refine hnone a (mem_walk_of_found hvalid hdigests hart hok (fun b hb _ => ?_)
      (reaches_iff_found.mp hreaches)) hlooks
    exact hvisit b (Bool.eq_false_iff.mpr (hnone b hb))

end Walks

/-- **Gate and scanner agree exactly if** with an artifact that the scanner supports, another
one can be reached that it supports and that has no unscannable layer. -/
theorem gate_agrees_iff (s : State) (hvalid : s.Valid)
    (hdigests : (s.artifacts.map (·.digest)).Nodup) (art : Artifact) (hart : art ∈ s.artifacts)
    (hasCapability : Artifact → Bool) (hasUnscannableLayer : String → Bool) :
    (isScannable s hasCapability art = .ok true ↔
      ∃ artifacts, collectScanningArtifacts s hasCapability hasUnscannableLayer art =
        .ok (artifacts, true)) ↔
      ((∃ a, s.Reaches art a ∧ isAccessory s a = false ∧ hasCapability a) →
        ∃ a, s.Reaches art a ∧ isAccessory s a = false ∧ hasUnscannableLayer a.digest = false ∧
          hasCapability a) := by
  obtain ⟨checked, hchecked, hgate⟩ := any_walk_iff hvalid hdigests hart
    (checkerVisit s hasCapability) (fun a => !isAccessory s a && hasCapability a)
    (fun a => by unfold checkerVisit; grind) (fun a err => by unfold checkerVisit; grind)
  obtain ⟨collected, hcollected, hscan⟩ := any_walk_iff hvalid hdigests hart
    (collectVisit s hasCapability hasUnscannableLayer)
    (supported s hasCapability hasUnscannableLayer)
    (fun a => by unfold collectVisit supported; grind)
    (fun a err => by unfold collectVisit; grind)
  have hisScannable : isScannable s hasCapability art = .ok true ↔
      ∃ a, s.Reaches art a ∧ isAccessory s a = false ∧ hasCapability a := by
    rw [isScannable, hchecked]
    simpa [Except.map] using hgate
  have hcollect : (∃ artifacts, collectScanningArtifacts s hasCapability hasUnscannableLayer art =
      .ok (artifacts, true)) ↔ ∃ a, s.Reaches art a ∧ isAccessory s a = false ∧
        hasUnscannableLayer a.digest = false ∧ hasCapability a := by
    rw [collectScanningArtifacts, hcollected]
    simpa [Except.map, supported, and_assoc] using hscan
  rw [hisScannable, hcollect]
  refine ⟨Iff.mp, fun h => ⟨h, ?_⟩⟩
  rintro ⟨a, hreaches, haccessory, -, hcapability⟩
  exact ⟨a, hreaches, haccessory, hcapability⟩

/-- All layers of the two images can be scanned. -/
theorem gate_agrees_twoImages :
    isScannable twoImages (fun a => !a.isImageIndex) ⟨1, "sha256:index", true⟩ = .ok true ↔
      ∃ artifacts, collectScanningArtifacts twoImages (fun a => !a.isImageIndex) (fun _ => false)
        ⟨1, "sha256:index", true⟩ = .ok (artifacts, true) :=
  (gate_agrees_iff twoImages ⟨by decide, by decide, by decide, by decide,
    by simp [twoImages, State.Has], by decide, by simp [twoImages]⟩ (by decide) _ (by decide)
    _ _).mpr fun ⟨a, hreaches, haccessory, hcapability⟩ =>
      ⟨a, hreaches, haccessory, rfl, hcapability⟩

/-- An image with a layer that is an in-toto statement is blocked, and cannot be scanned. -/
theorem unscannable_blocked :
    isScannable twoImages (fun _ => true) ⟨2, "sha256:amd64", false⟩ = .ok true ∧
      collectScanningArtifacts twoImages (fun _ => true) (fun _ => true)
        ⟨2, "sha256:amd64", false⟩ = .ok ([], false) := by
  decide

end Harbor.Scan
