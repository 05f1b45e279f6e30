import Harbor.Data.FirstByKey

/-!
# Vulnerability reports

A scanner reports vulnerabilities as a list of items (`pkg/scan/vuln`).  An item is
identified by a key made of its id, package and version; of the items with one key a
`VulnerabilityItemList` keeps the first, to which it adds the artifacts of the others.
The reports of the children of an image index are merged into one (`pkg/scan/report`).

Of an item those fields are modelled that decide about it.  A text that cannot be
parsed as a report is kept as an error.
-/

namespace Harbor.Scan

open Harbor.Data List

/-! ## Severities -/

/-- A severity is any text; the empty one stands for no severity. -/
abbrev Severity : Type := String

/-- `Severity.Code`; a severity that is not known gets the highest code. -/
def Severity.code (severity : Severity) : ℕ :=
  if severity = "None" ∨ severity = "Unknown" then 0
  else if severity = "Negligible" then 1
  else if severity = "Low" then 2
  else if severity = "Medium" then 3
  else if severity = "High" then 4
  else if severity = "Critical" then 5
  else 99

def mergeSeverity (s₁ s₂ : Severity) : Severity :=
  let severityValue (severity : Severity) : ℤ := if severity = "" then -1 else severity.code
  if severityValue s₂ < severityValue s₁ then s₁ else s₂

/-- `ParseSeverityVersion3`; `title` is the case mapping of `golang.org/x/text`. -/
def parseSeverityVersion3 (title : String → String) (text : String) : Severity :=
  let severity := title text
  if severity ∈ ["None", "Low", "Medium", "High", "Critical"] then severity
  else if severity = "Negligible" then "None"
  else "Unknown"

/-! ## Items -/

structure VulnerabilityItem where
  id : String
  package : String
  version : String
  fixVersion : String := ""
  severity : Severity
  status : String := ""
  artifactDigests : List String := []
  deriving DecidableEq, Repr

def VulnerabilityItem.key (item : VulnerabilityItem) : String :=
  item.id ++ "-" ++ item.package ++ "-" ++ item.version

/-- The item without the artifacts that it was found in. -/
def VulnerabilityItem.finding (item : VulnerabilityItem) : VulnerabilityItem :=
  { item with artifactDigests := [] }

/-- `VulnerabilityItemList`, whose index maps a key to the item with the key. -/
structure VulnerabilityItemList where
  items : List VulnerabilityItem := []
  deriving DecidableEq, Repr

namespace VulnerabilityItemList

variable (l : VulnerabilityItemList)

def getItem (key : String) : Option VulnerabilityItem :=
  firstWith VulnerabilityItem.key l.items key

/-- One turn of the loop of `Add`. -/
def addItem (item : VulnerabilityItem) : VulnerabilityItemList :=
  match l.getItem item.key with
  | some _ =>
    { items := l.items.map fun other =>
        if other.key = item.key then
          { other with artifactDigests := other.artifactDigests ++ item.artifactDigests }
        else other }
  | none => { items := l.items ++ [item] }

def add (items : List VulnerabilityItem) : VulnerabilityItemList :=
  items.foldl addItem l

end VulnerabilityItemList

/-! ## Reports -/

structure Scanner where
  name : String
  vendor : String
  version : String
  deriving DecidableEq, Repr

/-- What the text of a report is parsed to. -/
structure ReportData where
  generatedAt : String := ""
  scanner : Option Scanner := none
  severity : Severity := ""
  vulnerabilities : List VulnerabilityItem := []
  deriving DecidableEq, Repr

/-- `vuln.Report`, with its item list once that was asked for. -/
structure Report extends ReportData where
  vulnerabilityItemList : Option VulnerabilityItemList := none
  deriving DecidableEq, Repr

def Report.getVulnerabilityItemList (report : Report) : VulnerabilityItemList :=
  match report.vulnerabilityItemList with
  | some l => l
  | none => ({} : VulnerabilityItemList).add report.vulnerabilities

def Report.merge (report another : Report) : Report :=
  let l := report.getVulnerabilityItemList.add another.vulnerabilities
  { generatedAt :=
      if report.generatedAt < another.generatedAt then another.generatedAt
      else report.generatedAt
    scanner := if report.generatedAt < another.generatedAt then another.scanner else report.scanner
    severity := mergeSeverity report.severity another.severity
    vulnerabilities := l.items
    vulnerabilityItemList := some l }

def ReportData.withArtifactDigest (report : ReportData) (artifactDigest : String) : ReportData :=
  { report with
    vulnerabilities := report.vulnerabilities.map fun item =>
      { item with artifactDigests := [artifactDigest] } }

/-- A row of `scan_report`: `report` is what its text is parsed to, none for no text. -/
structure ScanReport where
  status : String
  mimeType : String
  digest : String
  report : Option (Except String ReportData)

/-- `ResolveData` for a text that could be parsed, with a mime type that is supported. -/
def ScanReport.resolve (row : ScanReport) (report : ReportData) : Report :=
  { toReportData := if row.digest = "" then report else report.withArtifactDigest row.digest }

/-- `Reports.ResolveData`, from what was resolved before. -/
def resolveFrom (mimeType : String) (result : Option Report) :
    List ScanReport → Except String (Option Report)
  | [] => .ok result
  | row :: rest =>
    if row.mimeType ≠ mimeType then resolveFrom mimeType result rest
    else
      match row.report, result with
      | none, _ => resolveFrom mimeType result rest
      | some (.error err), _ => .error err
      | some (.ok report), none => resolveFrom mimeType (some (row.resolve report)) rest
      | some (.ok report), some merged =>
        resolveFrom mimeType (some (merged.merge (row.resolve report))) rest

def resolveData (mimeType : String) (reports : List ScanReport) : Except String (Option Report) :=
  resolveFrom mimeType none reports

/-! ## The first item of a key is kept -/

section Lists

variable {l : VulnerabilityItemList} {items : List VulnerabilityItem}
  {item : VulnerabilityItem} {key : String}

@[simp] theorem key_finding : item.finding.key = item.key := rfl

/-- What an item list holds for a key, up to the artifacts. -/
def VulnerabilityItemList.finding (l : VulnerabilityItemList) (key : String) :
    Option VulnerabilityItem :=
  (l.getItem key).map VulnerabilityItem.finding

/-- Every item is the one with its key. -/
def VulnerabilityItemList.Indexed (l : VulnerabilityItemList) : Prop :=
  ∀ item ∈ l.items, l.getItem item.key = some item

theorem firstWith_map_of_key {change : VulnerabilityItem → VulnerabilityItem}
    (hkey : ∀ item, (change item).key = item.key) (items : List VulnerabilityItem) (key : String) :
    firstWith VulnerabilityItem.key (items.map change) key =
      (firstWith VulnerabilityItem.key items key).map change := by
  simp only [firstWith, find?_map, Function.comp_def, hkey]

open VulnerabilityItemList

theorem addItem_cases (l : VulnerabilityItemList) (item : VulnerabilityItem) :
    (l.getItem item.key = none ∧ l.addItem item = { items := l.items ++ [item] }) ∨
      ∃ change : VulnerabilityItem → VulnerabilityItem,
        (∀ other, (change other).finding = other.finding) ∧
        (∃ found, l.getItem item.key = some found) ∧
        l.addItem item = { items := l.items.map change } := by
  unfold addItem
  cases hfound : l.getItem item.key with
  | none => exact .inl ⟨rfl, rfl⟩
  | some found =>
    refine .inr ⟨_, fun other => ?_, ⟨found, rfl⟩, rfl⟩
    split_ifs <;> rfl

theorem key_of_finding_eq {other : VulnerabilityItem} (heq : other.finding = item.finding) :
    other.key = item.key := by
  rw [← key_finding, heq, key_finding]

theorem finding_addItem (l : VulnerabilityItemList) (item : VulnerabilityItem) (key : String) :
    (l.addItem item).finding key =
      (l.finding key).or (if item.key = key then some item.finding else none) := by
  rcases addItem_cases l item with ⟨hnone, heq⟩ | ⟨change, hchange, ⟨found, hfound⟩, heq⟩
  · rw [heq, finding, getItem, firstWith_append,
      finding, getItem]
    rcases firstWith VulnerabilityItem.key l.items key with _ | first
    · by_cases hkey : item.key = key <;> simp [firstWith, hkey]
    · simp
  · have hsame : (l.addItem item).finding key = l.finding key := by
      rw [heq]
      simp only [finding, getItem]
      rw [firstWith_map_of_key (fun other => key_of_finding_eq (hchange other)), Option.map_map]
      exact congrArg (Option.map · _) (funext hchange)
    rw [hsame]
    by_cases hkey : item.key = key
    · have hsome : l.finding key = some found.finding := by
        rw [finding, ← hkey, hfound, Option.map_some]
      rw [hsome, Option.some_or]
    · rw [if_neg hkey, Option.or_none]

theorem indexed_addItem (h : l.Indexed) (item : VulnerabilityItem) : (l.addItem item).Indexed := by
  rcases addItem_cases l item with ⟨hnone, heq⟩ | ⟨change, hchange, _, heq⟩ <;> rw [heq]
  · intro other hother
    rcases mem_append.mp hother with hother | hother
    · have hindexed := h other hother
      rw [getItem] at hindexed
      rw [getItem, firstWith_append, hindexed, Option.some_or]
    · obtain rfl := mem_singleton.mp hother
      rw [getItem] at hnone
      rw [getItem, firstWith_append, hnone, Option.none_or]
      simp [firstWith]
  · intro other hother
    obtain ⟨original, horiginal, rfl⟩ := mem_map.mp hother
    have hindexed := h original horiginal
    rw [getItem] at hindexed
    have hkey : ∀ item, (change item).key = item.key := fun item => key_of_finding_eq (hchange item)
    rw [getItem, firstWith_map_of_key hkey, hkey, hindexed, Option.map_some]

theorem head_addItem (l : VulnerabilityItemList) (item : VulnerabilityItem) :
    ((l.addItem item).items.head?.map VulnerabilityItem.finding) =
      (l.items.head?.map VulnerabilityItem.finding).or (some item.finding) := by
  rcases addItem_cases l item with ⟨_, heq⟩ | ⟨change, hchange, ⟨found, hfound⟩, heq⟩ <;> rw [heq]
  · cases l.items with
    | nil | cons first rest => rfl
  · cases hitems : l.items with
    | nil =>
      rw [getItem, hitems] at hfound
      cases hfound
    | cons first rest => simp [hchange]

/-- The item list of some items that were found in this order. -/
structure VulnerabilityItemList.Represents (l : VulnerabilityItemList)
    (found : List VulnerabilityItem) : Prop where
  indexed : l.Indexed
  finding : ∀ key, l.finding key =
    (firstWith VulnerabilityItem.key found key).map VulnerabilityItem.finding
  head : l.items.head?.map VulnerabilityItem.finding =
    found.head?.map VulnerabilityItem.finding

theorem represents_empty : ({} : VulnerabilityItemList).Represents [] where
  indexed _ hmem := by cases hmem
  finding _ := rfl
  head := rfl

theorem represents_add {found : List VulnerabilityItem} (h : l.Represents found)
    (items : List VulnerabilityItem) : (l.add items).Represents (found ++ items) := by
  induction items generalizing l found with
  | nil =>
    rw [append_nil]
    exact h
  | cons item rest ih =>
    have hitem : (l.addItem item).Represents (found ++ [item]) := by
      refine ⟨indexed_addItem h.indexed item, fun key => ?_, ?_⟩
      · rw [finding_addItem, h.finding, firstWith_append]
        rcases firstWith VulnerabilityItem.key found key with _ | first
        · by_cases hkey : item.key = key <;> simp [firstWith, hkey]
        · simp
      · rw [head_addItem, h.head]
        cases found <;> rfl
    rw [append_cons]
    exact ih hitem

theorem VulnerabilityItemList.Represents.congr {found found' : List VulnerabilityItem}
    (h : l.Represents found)
    (hsame : found.map VulnerabilityItem.finding = found'.map VulnerabilityItem.finding) :
    l.Represents found' := by
  refine ⟨h.indexed, fun key => ?_, ?_⟩
  · have hmap := firstWith_map_of_key fun _ => key_finding
    rw [h.finding, ← hmap, hsame, hmap]
  · rw [h.head, ← head?_map, hsame, head?_map]

end Lists

/-! ## Merged reports -/

section Reports

variable {mimeType : String}

/-- The items of a report that is ready and has the mime type. -/
def ScanReport.items (mimeType : String) (row : ScanReport) : List VulnerabilityItem :=
  if row.mimeType ≠ mimeType then []
  else
    match row.report with
    | some (.ok report) => report.vulnerabilities
    | _ => []

/-- The text, if there is one, can be parsed. -/
def ScanReport.Parsed (row : ScanReport) : Prop :=
  ∀ err, row.report ≠ some (.error err)

open ScanReport

theorem finding_resolve (row : ScanReport) (report : ReportData) :
    (row.resolve report).vulnerabilities.map VulnerabilityItem.finding =
      report.vulnerabilities.map VulnerabilityItem.finding := by
  unfold resolve
  split_ifs
  · rfl
  · simp [ReportData.withArtifactDigest, Function.comp_def, VulnerabilityItem.finding]

theorem represents_resolve {l : VulnerabilityItemList} {found : List VulnerabilityItem}
    (h : l.Represents found) (row : ScanReport) (report : ReportData) :
    (l.add (row.resolve report).vulnerabilities).Represents
      (found ++ report.vulnerabilities) := by
  refine (represents_add h _).congr ?_
  rw [map_append, map_append, finding_resolve]

/-- **Spec of `ResolveData`.**  The item list of the merged report represents the items of
all reports, in the order of the reports. -/
theorem resolveFrom_some {merged : Report} {found : List VulnerabilityItem}
    (h : merged.getVulnerabilityItemList.Represents found) (rows : List ScanReport)
    (hparsed : ∀ row ∈ rows, row.Parsed) :
    ∃ report, resolveFrom mimeType (some merged) rows = .ok (some report) ∧
      report.getVulnerabilityItemList.Represents
        (found ++ rows.flatMap (items mimeType)) := by
  induction rows generalizing merged found with
  | nil => exact ⟨merged, rfl, by simpa using h⟩
  | cons row rest ih =>
    have hrest : ∀ other ∈ rest, other.Parsed :=
      fun other hother => hparsed other (mem_cons_of_mem _ hother)
    rw [flatMap_cons, ← append_assoc]
    unfold resolveFrom items
    by_cases hmime : row.mimeType ≠ mimeType
    · rw [if_pos hmime, if_pos hmime, append_nil]
      exact ih h hrest
    · rw [if_neg hmime, if_neg hmime]
      match hreport : row.report with
      | none =>
        rw [append_nil]
        exact ih h hrest
      | some (.error err) => exact absurd hreport (hparsed row mem_cons_self err)
      | some (.ok report) => exact ih (represents_resolve h row report) hrest

theorem resolveData_spec (mimeType : String) (rows : List ScanReport)
    (hparsed : ∀ row ∈ rows, row.Parsed) :
    (∃ report, resolveData mimeType rows = .ok (some report) ∧
        report.getVulnerabilityItemList.Represents
          (rows.flatMap (items mimeType))) ∨
      (resolveData mimeType rows = .ok none ∧ rows.flatMap (items mimeType) = []) := by
  unfold resolveData
  induction rows with
  | nil => exact .inr ⟨rfl, rfl⟩
  | cons row rest ih =>
    have hrest : ∀ other ∈ rest, other.Parsed :=
      fun other hother => hparsed other (mem_cons_of_mem _ hother)
    rw [flatMap_cons]
    unfold resolveFrom items
    by_cases hmime : row.mimeType ≠ mimeType
    · rw [if_pos hmime, if_pos hmime, nil_append]
      exact ih hrest
    · rw [if_neg hmime, if_neg hmime]
      match hreport : row.report with
      | none =>
        exact ih hrest
      | some (.error err) => exact absurd hreport (hparsed row mem_cons_self err)
      | some (.ok report) =>
        have hfirst : (row.resolve report).getVulnerabilityItemList.Represents
            report.vulnerabilities := represents_resolve represents_empty row report
        exact .inl (resolveFrom_some hfirst rest hrest)

end Reports

end Harbor.Scan
