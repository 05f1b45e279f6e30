import Harbor.Scan.Reports

/-!
# The vulnerability gate

`GetVulnerable` of the scan controller merges the reports of an artifact and of its
children and gives the worst severity of the items that the allowlist does not
bypass; the pull of an artifact is refused if it is too high.

The merged report keeps one item for each key, the first one, before severities are
compared.  So an item is seen only if no item with the same key comes before it, and
two severities with the same code, or the empty one, are told apart by their order.
`gate_sees_worst_iff` says for which reports the worst finding is seen in every order.
-/

namespace Harbor.Scan

open Harbor.Data List ScanReport

/-! ## The controller -/

def jobStatusCode (status : String) : ℤ :=
  if status = "Pending" then 0
  else if status = "Scheduled" then 1
  else if status = "Running" then 2
  else if status = "Stopped" ∨ status = "Error" ∨ status = "Success" then 3
  else -1

def mergeScanStatus (s₁ s₂ : String) : String :=
  if s₁ = "Running" ∨ s₂ = "Running" then "Running"
  else if s₁ = "Stopped" ∨ s₂ = "Stopped" then "Stopped"
  else if s₁ = "Success" ∨ s₂ = "Success" then "Success"
  else if jobStatusCode s₂ < jobStatusCode s₁ then s₁
  else s₂

structure Vulnerable where
  vulnerabilitiesCount : ℤ := 0
  scanStatus : String
  severity : Option Severity := none
  cveBypassed : List String := []
  deriving DecidableEq, Repr

structure Allowlist where
  cveSet : List String := []
  isExpired : Bool := false
  deriving DecidableEq, Repr

/-- The item with this id is bypassed. -/
def Allowlist.Bypasses (allowlist : Allowlist) (id : String) : Prop :=
  allowlist.isExpired = false ∧ id ∈ allowlist.cveSet

instance (allowlist : Allowlist) (id : String) : Decidable (allowlist.Bypasses id) :=
  inferInstanceAs (Decidable (_ ∧ _))

/-- The local variable of the loop over the items. -/
structure Tally where
  severity : Severity := ""
  vulnerabilitiesCount : ℤ
  cveBypassed : List String := []

/-- One turn of the loop. -/
def Tally.see (allowlist : Allowlist) (tally : Tally) (v : VulnerabilityItem) : Tally :=
  if allowlist.Bypasses v.id then
    { tally with
      cveBypassed := tally.cveBypassed ++ [v.id]
      vulnerabilitiesCount := tally.vulnerabilitiesCount - 1 }
  else if tally.severity = "" ∨ tally.severity.code < v.severity.code then
    { tally with severity := v.severity }
  else tally

/-- What `GetVulnerable` makes of the items of the merged report. -/
def vulnerableOf (allowlist : Allowlist) (scanStatus : String) (vuls : List VulnerabilityItem) :
    Vulnerable :=
  if vuls.length = 0 then { scanStatus := scanStatus }
  else
    let tally := vuls.foldl (Tally.see allowlist) { vulnerabilitiesCount := vuls.length }
    { vulnerabilitiesCount := tally.vulnerabilitiesCount
      scanStatus := scanStatus
      severity := if tally.severity ≠ "" then some tally.severity else none
      cveBypassed := tally.cveBypassed }

def mimeTypeNativeReport : String :=
  "application/vnd.scanner.adapter.vuln.report.harbor+json; version=1.0"

def mimeTypeGenericVulnerabilityReport : String :=
  "application/vnd.security.vulnerability.report; version=1.1"

/-- The reports of the first mime type for which there are any. -/
def firstReports (getReport : String → Except String (List ScanReport)) :
    List String → Except String (String × List ScanReport)
  | [] => .ok ("", [])
  | mimeType :: rest =>
    match getReport mimeType with
    | .error err => .error err
    | .ok [] => firstReports getReport rest
    | .ok (row :: rows) => .ok (mimeType, row :: rows)

/-- `GetVulnerable`, for the reports that `GetReport` gives for a mime type. -/
def getVulnerable (getReport : String → Except String (List ScanReport))
    (allowlist : Allowlist) : Except String Vulnerable :=
  match firstReports getReport [mimeTypeNativeReport, mimeTypeGenericVulnerabilityReport] with
  | .error err => .error err
  | .ok (_, []) => .error "report not found"
  | .ok (mimeType, row :: rows) =>
    let scanStatus := (row :: rows).foldl
      (fun status report => mergeScanStatus status report.status) row.status
    if scanStatus ≠ "Success" then .ok { scanStatus := scanStatus }
    else
      match resolveData mimeType (row :: rows) with
      | .error err => .error err
      | .ok none => .ok { scanStatus := scanStatus }
      | .ok (some report) =>
        .ok (vulnerableOf allowlist scanStatus report.getVulnerabilityItemList.items)

/-! ## The loop over the items -/

section Loop

variable {allowlist : Allowlist} {severity : Severity} {items : List VulnerabilityItem} {top : ℕ}

/-- What a turn of the loop does to the severity. -/
def raise (allowlist : Allowlist) (severity : Severity) (v : VulnerabilityItem) : Severity :=
  if allowlist.Bypasses v.id then severity
  else if severity = "" ∨ severity.code < v.severity.code then v.severity
  else severity

variable {v : VulnerabilityItem}

theorem severity_foldl_see (tally : Tally) (items : List VulnerabilityItem) :
    (items.foldl (Tally.see allowlist) tally).severity =
      items.foldl (raise allowlist) tally.severity := by
  induction items generalizing tally with
  | nil => rfl
  | cons v rest ih =>
    have hturn : (tally.see allowlist v).severity = raise allowlist tally.severity v := by
      unfold Tally.see raise
      split_ifs <;> rfl
    rw [foldl_cons, ih, hturn, foldl_cons]

/-- The severity is the one from before or that of an item that is not bypassed. -/
theorem foldl_raise_mem (allowlist : Allowlist) (severity : Severity)
    (items : List VulnerabilityItem) :
    items.foldl (raise allowlist) severity = severity ∨
      ∃ v ∈ items, ¬ allowlist.Bypasses v.id ∧
        v.severity = items.foldl (raise allowlist) severity := by
  induction items generalizing severity with
  | nil => exact .inl rfl
  | cons v rest ih =>
    rw [foldl_cons]
    rcases ih (raise allowlist severity v) with hsame | ⟨w, hw, hrelevant, hseverity⟩
    · rw [hsame]
      unfold raise
      split_ifs with hbypassed hhigher
      · exact .inl rfl
      · exact .inr ⟨v, mem_cons_self, hbypassed, rfl⟩
      · exact .inl rfl
    · exact .inr ⟨w, mem_cons_of_mem _ hw, hrelevant, hseverity⟩

/-- Nothing replaces a severity that no item exceeds. -/
theorem foldl_raise_of_le (hset : severity ≠ "")
    (hle : ∀ v ∈ items, ¬ allowlist.Bypasses v.id → v.severity.code ≤ severity.code) :
    items.foldl (raise allowlist) severity = severity := by
  induction items with
  | nil => rfl
  | cons v rest ih =>
    have hturn : raise allowlist severity v = severity := by
      unfold raise
      split_ifs with hbypassed hhigher
      · rfl
      · rcases hhigher with hempty | hlt
        · exact absurd hempty hset
        · exact absurd (hle v mem_cons_self hbypassed) (by omega)
      · rfl
    rw [foldl_cons, hturn]
    exact ih fun w hw => hle w (mem_cons_of_mem _ hw)

/-- The item is not bypassed, has a severity and the highest code. -/
def IsTop (allowlist : Allowlist) (top : ℕ) (v : VulnerabilityItem) : Prop :=
  ¬ allowlist.Bypasses v.id ∧ v.severity ≠ "" ∧ v.severity.code = top

theorem raise_of_isTop {v : VulnerabilityItem} (htop : IsTop allowlist top v)
    (hbelow : severity = "" ∨ severity.code < top) : raise allowlist severity v = v.severity := by
  unfold raise
  rw [if_neg htop.1, if_pos (htop.2.2.symm ▸ hbelow)]

/-- Below the highest code, a turn stays below it unless it meets an item with it. -/
theorem raise_below (hbelow : severity = "" ∨ severity.code < top)
    (hle : ¬ allowlist.Bypasses v.id → v.severity.code ≤ top) (htop : ¬ IsTop allowlist top v) :
    raise allowlist severity v = "" ∨ (raise allowlist severity v).code < top := by
  unfold raise
  split_ifs with hbypassed hhigher
  · exact hbelow
  · by_cases hempty : v.severity = ""
    · exact .inl hempty
    · refine .inr (lt_of_le_of_ne (hle hbypassed) fun heq => htop ⟨hbypassed, hempty, heq⟩)
  · exact hbelow

/-- An item with the highest code decides. -/
theorem foldl_raise_isTop (hbelow : severity = "" ∨ severity.code < top)
    (hle : ∀ v ∈ items, ¬ allowlist.Bypasses v.id → v.severity.code ≤ top)
    (htop : ∃ v ∈ items, IsTop allowlist top v) :
    ∃ v ∈ items, IsTop allowlist top v ∧
      items.foldl (raise allowlist) severity = v.severity := by
  induction items generalizing severity with
  | nil =>
    obtain ⟨_, hmem, _⟩ := htop
    cases hmem
  | cons v rest ih =>
    have hrest : ∀ w ∈ rest, ¬ allowlist.Bypasses w.id → w.severity.code ≤ top :=
      fun w hw => hle w (mem_cons_of_mem _ hw)
    rw [foldl_cons]
    by_cases hv : IsTop allowlist top v
    · refine ⟨v, mem_cons_self, hv, ?_⟩
      rw [raise_of_isTop hv hbelow]
      exact foldl_raise_of_le hv.2.1 (hv.2.2.symm ▸ hrest)
    · have hlater : ∃ w ∈ rest, IsTop allowlist top w := by
        obtain ⟨w, hw, hwtop⟩ := htop
        rcases mem_cons.mp hw with rfl | hw
        · exact absurd hwtop hv
        · exact ⟨w, hw, hwtop⟩
      obtain ⟨w, hw, hresult⟩ := ih (raise_below hbelow (hle v mem_cons_self) hv) hrest hlater
      exact ⟨w, mem_cons_of_mem _ hw, hresult⟩

end Loop

/-! ## What the gate returns -/

section Gate

variable {allowlist : Allowlist} {mimeType : String} {rows rows' : List ScanReport}

/-- The severity that is returned for the items of the merged report. -/
def severityOf (allowlist : Allowlist) (vuls : List VulnerabilityItem) : Option Severity :=
  if vuls.foldl (raise allowlist) "" ≠ "" then some (vuls.foldl (raise allowlist) "") else none

theorem severity_vulnerableOf (scanStatus : String) (vuls : List VulnerabilityItem) :
    (vulnerableOf allowlist scanStatus vuls).severity = severityOf allowlist vuls := by
  unfold vulnerableOf severityOf
  split_ifs with hempty hset
  · rw [eq_nil_of_length_eq_zero hempty] at hset
    exact absurd rfl hset
  · rfl
  · simp only [severity_foldl_see, if_pos ‹_›]
  · simp only [severity_foldl_see, if_neg ‹_›]

/-- `GetReport` gives these reports for the mime type and none for another. -/
def serving (mimeType : String) (rows : List ScanReport) (asked : String) :
    Except String (List ScanReport) :=
  .ok (if asked = mimeType then rows else [])

/-- The reports of a scan that has succeeded. -/
def Succeeded (rows : List ScanReport) : Prop :=
  rows ≠ [] ∧ ∀ row ∈ rows, row.status = "Success" ∧ row.Parsed

theorem firstReports_serving
    (hmime : mimeType ∈ [mimeTypeNativeReport, mimeTypeGenericVulnerabilityReport])
    (hrows : rows ≠ []) :
    firstReports (serving mimeType rows)
      [mimeTypeNativeReport, mimeTypeGenericVulnerabilityReport] = .ok (mimeType, rows) := by
  obtain ⟨row, rest, rfl⟩ := exists_cons_of_ne_nil hrows
  have hdiffer : mimeTypeNativeReport ≠ mimeTypeGenericVulnerabilityReport := by decide
  rcases mem_pair.mp hmime with rfl | rfl
  · simp [firstReports, serving]
  · simp [firstReports, serving, hdiffer]

theorem foldl_mergeScanStatus (hstatus : ∀ row ∈ rows, row.status = "Success") :
    rows.foldl (fun status report => mergeScanStatus status report.status) "Success" =
      "Success" := by
  induction rows with
  | nil => rfl
  | cons row rest ih =>
    rw [foldl_cons, hstatus row mem_cons_self]
    exact ih fun other hother => hstatus other (mem_cons_of_mem _ hother)

/-- **Spec of `GetVulnerable`.**  The severity comes from an item list that represents the
items of all reports. -/
theorem getVulnerable_spec
    (hmime : mimeType ∈ [mimeTypeNativeReport, mimeTypeGenericVulnerabilityReport])
    (hrows : Succeeded rows) (allowlist : Allowlist) :
    ∃ (v : Vulnerable) (l : VulnerabilityItemList),
      getVulnerable (serving mimeType rows) allowlist = .ok v ∧
        l.Represents (rows.flatMap (items mimeType)) ∧
        v.severity = severityOf allowlist l.items := by
  obtain ⟨hne, hsuccess⟩ := hrows
  unfold getVulnerable
  rw [firstReports_serving hmime hne]
  obtain ⟨row, rest, rfl⟩ := exists_cons_of_ne_nil hne
  have hstatus : (row :: rest).foldl
      (fun status report => mergeScanStatus status report.status) row.status = "Success" := by
    rw [(hsuccess row mem_cons_self).1]
    exact foldl_mergeScanStatus fun other hother => (hsuccess other hother).1
  simp only [hstatus, ne_eq, not_true_eq_false, if_false]
  rcases resolveData_spec mimeType (row :: rest)
    (fun other hother => (hsuccess other hother).2) with ⟨report, hdata, hl⟩ | ⟨hdata, hnil⟩
  · rw [hdata]
    exact ⟨_, _, rfl, hl, severity_vulnerableOf _ _⟩
  · rw [hdata, hnil]
    exact ⟨_, {}, rfl, represents_empty, rfl⟩

end Gate

/-! ## Orders of reports and items -/

/-- The same report, with its items in another order. -/
def ScanReport.Shuffles (row row' : ScanReport) : Prop :=
  row' = row ∨ ∃ report vulnerabilities, row.report = some (.ok report) ∧
    report.vulnerabilities.Perm vulnerabilities ∧
    row' = { row with report := some (.ok { report with vulnerabilities := vulnerabilities }) }

section Orders

variable {mimeType : String} {row row' : ScanReport} {rows rows' : List ScanReport}

theorem ScanReport.Shuffles.refl (row : ScanReport) : row.Shuffles row := .inl rfl

theorem ScanReport.Shuffles.perm (h : row.Shuffles row') :
    (row.items mimeType).Perm (row'.items mimeType) := by
  rcases h with rfl | ⟨report, vulnerabilities, hreport, hperm, rfl⟩
  · exact List.Perm.refl _
  · unfold items
    rw [hreport]
    split_ifs
    · exact List.Perm.refl _
    · exact hperm

theorem ScanReport.Shuffles.status (h : row.Shuffles row') : row'.status = row.status := by
  rcases h with rfl | ⟨_, _, _, _, rfl⟩ <;> rfl

theorem ScanReport.Shuffles.parsed (h : row.Shuffles row') (hparsed : row.Parsed) :
    row'.Parsed := by
  rcases h with rfl | ⟨_, _, _, _, rfl⟩
  · exact hparsed
  · intro err herr
    cases herr

theorem exists_shuffles (row : ScanReport) (arranged : List VulnerabilityItem)
    (hperm : (row.items mimeType).Perm arranged) :
    ∃ row', row.Shuffles row' ∧ row'.items mimeType = arranged := by
  unfold items at hperm
  split_ifs at hperm with hmime
  · refine ⟨row, .inl rfl, ?_⟩
    rw [items, if_pos hmime, hperm.nil_eq]
  · match hreport : row.report with
    | some (.ok report) =>
      rw [hreport] at hperm
      refine ⟨_, .inr ⟨report, arranged, hreport, hperm, rfl⟩, ?_⟩
      rw [items, if_neg hmime]
    | some (.error err) | none =>
      rw [hreport] at hperm
      refine ⟨row, .inl rfl, ?_⟩
      rw [items, if_neg hmime, hreport, hperm.nil_eq]

theorem Succeeded.rearrange (h : Succeeded rows)
    (hrows' : Rearranges ScanReport.Shuffles rows rows') : Succeeded rows' := by
  refine ⟨hrows'.ne_nil h.1, fun row' hrow' => ?_⟩
  obtain ⟨row, hrow, hshuffles⟩ := hrows'.exists_mem hrow'
  obtain ⟨hstatus, hparsed⟩ := h.2 row hrow
  exact ⟨hshuffles.status.trans hstatus, hshuffles.parsed hparsed⟩

theorem mem_findings_iff (hrows' : Rearranges ScanReport.Shuffles rows rows')
    (v : VulnerabilityItem) :
    v ∈ rows'.flatMap (items mimeType) ↔
      v ∈ rows.flatMap (items mimeType) := by
  obtain ⟨middle, hmiddle, hperm⟩ := hrows'
  rw [← (hperm.flatMap_right _).mem_iff]
  clear hperm
  induction hmiddle with
  | nil => rfl
  | cons hrow _ ih => rw [flatMap_cons, flatMap_cons, mem_append, mem_append, ih, hrow.perm.mem_iff]

end Orders

/-! ## The worst finding -/

/-- The severity is the worst one of the items that are not bypassed; none if there are
no such items. -/
def SeesWorst (allowlist : Allowlist) (found : List VulnerabilityItem) :
    Option Severity → Prop
  | none => ∀ v ∈ found, allowlist.Bypasses v.id
  | some severity =>
    (∃ v ∈ found, ¬ allowlist.Bypasses v.id ∧ v.severity.code = severity.code) ∧
      ∀ v ∈ found, ¬ allowlist.Bypasses v.id → v.severity.code ≤ severity.code

/-- A worst item with a severity. -/
def IsWorst (allowlist : Allowlist) (found : List VulnerabilityItem) (v : VulnerabilityItem) :
    Prop :=
  ¬ allowlist.Bypasses v.id ∧ v.severity ≠ "" ∧
    ∀ w ∈ found, ¬ allowlist.Bypasses w.id → w.severity.code ≤ v.severity.code

/-- There is nothing to see; or the worst items with a severity have one and the same, and
they hold out against the items with the same keys. -/
def WorstVisible (allowlist : Allowlist) (mimeType : String) (rows : List ScanReport) : Prop :=
  (∀ v ∈ rows.flatMap (items mimeType), allowlist.Bypasses v.id) ∨
    ((∀ v ∈ rows.flatMap (items mimeType),
        ∀ w ∈ rows.flatMap (items mimeType),
        IsWorst allowlist (rows.flatMap (items mimeType)) v →
        IsWorst allowlist (rows.flatMap (items mimeType)) w →
          v.severity = w.severity) ∧
      ∃ keys, Holdout VulnerabilityItem.key (items mimeType)
        (IsWorst allowlist (rows.flatMap (items mimeType))) rows keys)

section Worst

variable {allowlist : Allowlist} {found : List VulnerabilityItem} {l : VulnerabilityItemList}
  {item : VulnerabilityItem} {key : String} {v w : VulnerabilityItem} {all : List VulnerabilityItem}
  {worst : VulnerabilityItem}

/-- An item of the list is the first of its key. -/
theorem VulnerabilityItemList.Represents.exists_first (h : l.Represents found)
    (hitem : item ∈ l.items) :
    ∃ first, firstWith VulnerabilityItem.key found item.key = some first ∧
      first.finding = item.finding := by
  have hfinding := h.finding item.key
  rw [VulnerabilityItemList.finding, h.indexed item hitem, Option.map_some] at hfinding
  exact Option.map_eq_some_iff.mp hfinding.symm

theorem VulnerabilityItemList.Represents.exists_item (h : l.Represents found)
    {first : VulnerabilityItem} (hfirst : firstWith VulnerabilityItem.key found key = some first) :
    ∃ item ∈ l.items, item.finding = first.finding := by
  have hfinding := h.finding key
  rw [hfirst, Option.map_some] at hfinding
  obtain ⟨item, hitem, heq⟩ := Option.map_eq_some_iff.mp hfinding
  exact ⟨item, (mem_of_firstWith hitem).1, heq⟩

theorem id_of_finding_eq (heq : v.finding = w.finding) : v.id = w.id := by
  have hid := congrArg VulnerabilityItem.id heq
  exact hid

theorem severity_of_finding_eq (heq : v.finding = w.finding) : v.severity = w.severity := by
  have hseverity := congrArg VulnerabilityItem.severity heq
  exact hseverity

theorem severityOf_of_bypassed (h : l.Represents found)
    (hbypassed : ∀ v ∈ found, allowlist.Bypasses v.id) : severityOf allowlist l.items = none := by
  have hempty : l.items.foldl (raise allowlist) "" = "" := by
    rcases foldl_raise_mem allowlist "" l.items with hsame | ⟨v, hv, hrelevant, _⟩
    · exact hsame
    · obtain ⟨first, hfirst, heq⟩ := h.exists_first hv
      have hfirstBypassed := hbypassed first (mem_of_firstWith hfirst).1
      exact absurd (id_of_finding_eq heq ▸ hfirstBypassed) hrelevant
  rw [severityOf, if_neg (not_not.mpr hempty)]

/-- The severity that is returned is one of an item of the list that is not bypassed. -/
theorem exists_of_severityOf {severity : Severity}
    (hseverity : severityOf allowlist l.items = some severity) :
    severity ≠ "" ∧ ∃ v ∈ l.items, ¬ allowlist.Bypasses v.id ∧ v.severity = severity := by
  unfold severityOf at hseverity
  split_ifs at hseverity with hset
  cases hseverity
  rcases foldl_raise_mem allowlist "" l.items with hsame | hitem
  · exact absurd hsame hset
  · exact ⟨hset, hitem⟩

theorem isTop_of_isWorst (hworst : IsWorst allowlist found v) (heq : item.finding = v.finding) :
    IsTop allowlist v.severity.code item := by
  refine ⟨?_, ?_, ?_⟩
  · rw [id_of_finding_eq heq]
    exact hworst.1
  · rw [severity_of_finding_eq heq]
    exact hworst.2.1
  · rw [severity_of_finding_eq heq]

/-- If a worst item is the first of its key then a worst severity is returned. -/
theorem severityOf_of_isWorst (h : l.Represents found) (hall : ∀ v, v ∈ found ↔ v ∈ all)
    (hworst : IsWorst allowlist all worst)
    (hfirst : firstWith VulnerabilityItem.key found key = some worst) :
    ∃ v ∈ all, IsWorst allowlist all v ∧ severityOf allowlist l.items = some v.severity := by
  have hle : ∀ item ∈ l.items, ¬ allowlist.Bypasses item.id →
      item.severity.code ≤ worst.severity.code := by
    intro item hitem hrelevant
    obtain ⟨first, hfirst, heq⟩ := h.exists_first hitem
    rw [← severity_of_finding_eq heq]
    refine hworst.2.2 first ((hall first).mp (mem_of_firstWith hfirst).1) ?_
    rwa [id_of_finding_eq heq]
  obtain ⟨item, hitem, heq⟩ := h.exists_item hfirst
  obtain ⟨top, htop, hisTop, hresult⟩ := foldl_raise_isTop (.inl rfl) hle
    ⟨item, hitem, isTop_of_isWorst hworst heq⟩
  obtain ⟨first, hfirst, hfirstEq⟩ := h.exists_first htop
  refine ⟨first, (hall first).mp (mem_of_firstWith hfirst).1, ⟨?_, ?_, ?_⟩, ?_⟩
  · rw [id_of_finding_eq hfirstEq]
    exact hisTop.1
  · rw [severity_of_finding_eq hfirstEq]
    exact hisTop.2.1
  · intro w hw hrelevant
    rw [severity_of_finding_eq hfirstEq, hisTop.2.2]
    exact hworst.2.2 w hw hrelevant
  · rw [severityOf, hresult, if_pos hisTop.2.1, severity_of_finding_eq hfirstEq]

theorem severityOf_of_head (h : l.Represents found) (hall : ∀ v, v ∈ found ↔ v ∈ all)
    (hworst : IsWorst allowlist all worst) (hhead : found.head? = some worst) :
    severityOf allowlist l.items = some worst.severity := by
  have hfirst := h.head
  rw [hhead, Option.map_some] at hfirst
  obtain ⟨item, hitem, heq⟩ := Option.map_eq_some_iff.mp hfirst
  obtain ⟨rest, hrest⟩ : ∃ rest, l.items = item :: rest := by
    cases hitems : l.items with
    | nil =>
      rw [hitems] at hitem
      cases hitem
    | cons first rest =>
      rw [hitems] at hitem
      exact ⟨rest, by rw [Option.some.inj hitem]⟩
  have htop := isTop_of_isWorst hworst heq
  have hresult : l.items.foldl (raise allowlist) "" = item.severity := by
    rw [hrest, foldl_cons, raise_of_isTop htop (.inl rfl)]
    refine foldl_raise_of_le htop.2.1 fun v hv hrelevant => ?_
    obtain ⟨other, hother, hotherEq⟩ := h.exists_first (hrest ▸ mem_cons_of_mem _ hv)
    rw [← severity_of_finding_eq hotherEq, severity_of_finding_eq heq]
    refine hworst.2.2 other ((hall other).mp (mem_of_firstWith hother).1) ?_
    rwa [id_of_finding_eq hotherEq]
  rw [severityOf, hresult, if_pos htop.2.1, severity_of_finding_eq heq]

/-- If the worst severity is returned then a worst item is the first of its key. -/
theorem exists_first_of_seesWorst (h : l.Represents found) {relevant : VulnerabilityItem}
    (hmem : relevant ∈ all) (hrelevant : ¬ allowlist.Bypasses relevant.id)
    (hsees : SeesWorst allowlist all (severityOf allowlist l.items)) :
    ∃ key first, firstWith VulnerabilityItem.key found key = some first ∧
      IsWorst allowlist all first := by
  cases hresult : severityOf allowlist l.items with
  | none =>
    rw [hresult] at hsees
    exact absurd (hsees relevant hmem) hrelevant
  | some severity =>
    rw [hresult] at hsees
    obtain ⟨hset, item, hitem, hitemRelevant, rfl⟩ := exists_of_severityOf hresult
    obtain ⟨first, hfirst, heq⟩ := h.exists_first hitem
    refine ⟨_, first, hfirst, ?_, ?_, ?_⟩
    · rw [id_of_finding_eq heq]
      exact hitemRelevant
    · rw [severity_of_finding_eq heq]
      exact hset
    · rw [severity_of_finding_eq heq]
      exact hsees.2

end Worst

/-! ## The gate sees the worst finding -/

section Main

variable {mimeType : String} {rows : List ScanReport}

/-- The gate is right for the reports in this order, and the same as in the given order. -/
def GateRight (allowlist : Allowlist) (mimeType : String) (rows rows' : List ScanReport) : Prop :=
  ∃ v v', getVulnerable (serving mimeType rows) allowlist = .ok v ∧
    getVulnerable (serving mimeType rows') allowlist = .ok v' ∧
    SeesWorst allowlist (rows.flatMap (items mimeType)) v'.severity ∧
    v'.severity = v.severity

/-- If the worst items are visible then every order returns their severity. -/
theorem severityOf_of_worstVisible {allowlist : Allowlist} {all : List VulnerabilityItem}
    {rows' : List ScanReport} (hrows' : Rearranges ScanReport.Shuffles rows rows')
    (hall : all = rows.flatMap (items mimeType)) {keys : Set String}
    (hholdout : Holdout VulnerabilityItem.key (items mimeType)
      (IsWorst allowlist all) rows keys) {l : VulnerabilityItemList}
    (hl : l.Represents (rows'.flatMap (items mimeType))) :
    ∃ v ∈ all, IsWorst allowlist all v ∧ severityOf allowlist l.items = some v.severity := by
  obtain ⟨_, _, first, hfirst, hworst⟩ :=
    (hholdout.rearrange (fun _ _ h => h.perm) hrows').exists_first
  subst hall
  exact severityOf_of_isWorst hl (mem_findings_iff hrows') hworst hfirst

/-- **The vulnerability gate.**  For the reports of a scan that has succeeded, in every
order of the reports and of their items the severity that is returned is the worst one of
the items that are not bypassed, and always the same one, exactly if the worst items are
visible. -/
theorem gate_sees_worst_iff
    (hmime : mimeType ∈ [mimeTypeNativeReport, mimeTypeGenericVulnerabilityReport])
    (hrows : Succeeded rows) (allowlist : Allowlist) :
    (∀ rows', Rearranges ScanReport.Shuffles rows rows' →
        GateRight allowlist mimeType rows rows') ↔
      WorstVisible allowlist mimeType rows := by
  obtain ⟨v₀, l₀, hv₀, hl₀, hseverity₀⟩ := getVulnerable_spec hmime hrows allowlist
  constructor
  · intro hright
    rw [WorstVisible, or_iff_not_imp_left]
    intro hrelevant
    push Not at hrelevant
    obtain ⟨relevant, hmem, hrelevant⟩ := hrelevant
    refine ⟨fun v hv w hw hvworst hwworst => ?_, ?_⟩
    · -- the item is brought to the front
      have hfront : ∀ u ∈ rows.flatMap (items mimeType),
          IsWorst allowlist (rows.flatMap (items mimeType)) u →
            v₀.severity = some u.severity := by
        intro u hu huworst
        obtain ⟨rows', hrows', hhead⟩ :=
          exists_rearranges_head ScanReport.Shuffles.refl exists_shuffles hu
        obtain ⟨v', l, hv', hl, hseverity⟩ :=
          getVulnerable_spec hmime (hrows.rearrange hrows') allowlist
        obtain ⟨v₁, v₂, hv₁, hv₂, _, hsame⟩ := hright rows' hrows'
        cases hv₀.symm.trans hv₁
        cases hv'.symm.trans hv₂
        rw [← hsame, hseverity]
        exact severityOf_of_head hl (mem_findings_iff hrows') huworst hhead
      exact Option.some.inj ((hfront v hv hvworst).symm.trans (hfront w hw hwworst))
    · refine (exists_first_iff_holdout (fun _ _ h => h.perm) exists_shuffles).mp ?_
      intro rows' hrows'
      obtain ⟨v', l, hv', hl, hseverity⟩ :=
        getVulnerable_spec hmime (hrows.rearrange hrows') allowlist
      obtain ⟨v₁, v₂, _, hv₂, hsees, _⟩ := hright rows' hrows'
      cases hv'.symm.trans hv₂
      rw [hseverity] at hsees
      exact exists_first_of_seesWorst hl hmem hrelevant hsees
  · intro hvisible rows' hrows'
    obtain ⟨v', l, hv', hl, hseverity⟩ :=
      getVulnerable_spec hmime (hrows.rearrange hrows') allowlist
    refine ⟨v₀, v', hv₀, hv', ?_⟩
    rw [hseverity₀, hseverity]
    rcases hvisible with hbypassed | ⟨hsame, keys, hholdout⟩
    · have hbypassed' : ∀ v ∈ rows'.flatMap (items mimeType),
          allowlist.Bypasses v.id :=
        fun v hv => hbypassed v ((mem_findings_iff hrows' v).mp hv)
      rw [severityOf_of_bypassed hl hbypassed', severityOf_of_bypassed hl₀ hbypassed]
      exact ⟨hbypassed, rfl⟩
    · obtain ⟨v, hv, hvworst, hvresult⟩ := severityOf_of_worstVisible hrows' rfl hholdout hl
      obtain ⟨w, hw, hwworst, hwresult⟩ := severityOf_of_worstVisible
        (Rearranges.refl ScanReport.Shuffles.refl rows) rfl hholdout hl₀
      rw [hvresult, hwresult, hsame v hv w hw hvworst hwworst]
      exact ⟨⟨⟨w, hw, hwworst.1, rfl⟩, hwworst.2.2⟩, rfl⟩

end Main

/-! ## Concrete reports -/

def opensslItem (severity : Severity) : VulnerabilityItem where
  id := "CVE-2024-1"
  package := "openssl"
  version := "3.0"
  severity := severity

/-- A child of an image index in which one vulnerability was found. -/
def childReport (digest : String) (severity : Severity) : ScanReport where
  status := "Success"
  mimeType := mimeTypeNativeReport
  digest := digest
  report := some (.ok { vulnerabilities := [opensslItem severity] })

theorem childReports_succeeded (severity₁ severity₂ : Severity) :
    Succeeded [childReport "sha256:amd64" severity₁, childReport "sha256:arm64" severity₂] := by
  refine ⟨by simp, fun row hrow => ?_⟩
  rcases mem_pair.mp hrow with rfl | rfl <;> exact ⟨rfl, fun err herr => by cases herr⟩

theorem childReports_items (severity₁ severity₂ : Severity) :
    [childReport "sha256:amd64" severity₁, childReport "sha256:arm64" severity₂].flatMap
        (items mimeTypeNativeReport) =
      [opensslItem severity₁, opensslItem severity₂] := by
  simp [items, childReport]

/-- Both children have the vulnerability with the same severity: any order will do. -/
theorem gate_sees_worst_iff_children :
    GateRight {} mimeTypeNativeReport
      [childReport "sha256:amd64" "High", childReport "sha256:arm64" "High"]
      [childReport "sha256:arm64" "High", childReport "sha256:amd64" "High"] := by
  have hsame : ∀ v ∈ [opensslItem "High", opensslItem "High"], v = opensslItem "High" := by
    decide +kernel
  have hworst : IsWorst {} [opensslItem "High", opensslItem "High"] (opensslItem "High") := by
    refine ⟨by decide, by decide, fun w hw _ => ?_⟩
    rw [hsame w hw]
  refine (gate_sees_worst_iff mem_cons_self (childReports_succeeded "High" "High") {}).mpr
    (.inr ⟨?_, {(opensslItem "High").key}, ?_⟩) _
    ⟨_, forall₂_same.mpr fun row _ => ScanReport.Shuffles.refl row, List.Perm.swap _ _ _⟩
  · rw [childReports_items]
    intro v hv w hw _ _
    rw [hsame v hv, hsame w hw]
  · rw [childReports_items]
    have hitems : ∀ row ∈ [childReport "sha256:amd64" "High", childReport "sha256:arm64" "High"],
        row.items mimeTypeNativeReport = [opensslItem "High"] := by
      intro row hrow
      rcases mem_pair.mp hrow with rfl | rfl <;> simp [items, childReport]
    refine ⟨⟨_, mem_cons_self, opensslItem "High", ?_, rfl⟩, fun row hrow _ => ?_⟩
    · rw [hitems _ mem_cons_self]
      exact mem_cons_self
    · refine ⟨_, rfl, ⟨opensslItem "High", ?_, rfl⟩, fun v hv _ => ?_⟩
      · rw [hitems row hrow]
        exact mem_cons_self
      · rw [hitems row hrow] at hv
        obtain rfl := mem_singleton.mp hv
        exact hworst

/-- The same vulnerability is low in one child and critical in another: the child that
comes first decides, and in this order the gate lets the critical one pass. -/
theorem gate_misses_critical_child :
    (getVulnerable (serving mimeTypeNativeReport
        [childReport "sha256:amd64" "Low", childReport "sha256:arm64" "Critical"]) {}).toOption =
      some { vulnerabilitiesCount := 1, scanStatus := "Success", severity := some "Low" } ∧
    (getVulnerable (serving mimeTypeNativeReport
        [childReport "sha256:arm64" "Critical", childReport "sha256:amd64" "Low"]) {}).toOption =
      some { vulnerabilitiesCount := 1, scanStatus := "Success", severity := some "Critical" } ∧
    ¬ SeesWorst {} [opensslItem "Low", opensslItem "Critical"] (some "Low") := by
  refine ⟨by decide +kernel, by decide +kernel, fun hsees => ?_⟩
  have hle := hsees.2 (opensslItem "Critical") (by simp) (by decide)
  exact absurd hle (by decide)

end Harbor.Scan
