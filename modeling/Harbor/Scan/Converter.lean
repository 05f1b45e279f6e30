import Harbor.Scan.Reports

/-!
# Reports in the relational schema

A report is not stored as a whole: its items become rows of `vulnerability_record`,
which all reports of a scanner share, and `report_vulnerability_record` says which rows
belong to a report (`pkg/scan/postprocessors`, `pkg/scan/dao/scan`).

Rows and items are matched by their dash-joined key, and a row is updated only if the
severity or the status of its item has changed.  `roundTrip_iff` says for which tables
a report that is written is read back as it was.
-/

namespace Harbor.Scan

open Harbor.Data List VulnerabilityItem

/-! ## Tables -/

/-- A row of `vulnerability_record`; scores, links and descriptions are left out. -/
structure VulnerabilityRecord where
  id : ℕ
  cveId : String
  registrationUUID : String
  package : String
  packageVersion : String
  severity : String
  status : String
  fix : String
  deriving DecidableEq, Repr

def VulnerabilityRecord.key (record : VulnerabilityRecord) : String :=
  record.cveId ++ "-" ++ record.package ++ "-" ++ record.packageVersion

/-- The columns of the unique constraint. -/
def VulnerabilityRecord.identity (record : VulnerabilityRecord) :
    String × String × String × String :=
  (record.cveId, record.registrationUUID, record.package, record.packageVersion)

structure VulnerabilityTables where
  records : List VulnerabilityRecord := []
  nextId : ℕ := 1
  /-- `report_vulnerability_record`: the uuids of reports and the ids of their records -/
  associations : List (String × ℕ) := []
  deriving DecidableEq, Repr

namespace VulnerabilityTables

variable (tables : VulnerabilityTables)

/-- `List` of the dao, for the ids of the vulnerabilities and the scanner. -/
def list (cveIDs : List String) (registrationUUID : String) : List VulnerabilityRecord :=
  tables.records.filter fun record =>
    record.cveId ∈ cveIDs ∧ record.registrationUUID = registrationUUID

/-- `Update` of the dao, for the columns of an out of date record. -/
def update (record : VulnerabilityRecord) : VulnerabilityTables :=
  { tables with
    records := tables.records.map fun other =>
      if other.id = record.id then
        { other with severity := record.severity, fix := record.fix, status := record.status }
      else other }

/-- `Create` of the dao, which reads a record with the same identity if there is one. -/
def create (record : VulnerabilityRecord) : VulnerabilityTables × ℕ :=
  match tables.records.find? fun other => other.identity = record.identity with
  | some other => (tables, other.id)
  | none =>
    ({ tables with
        records := tables.records ++ [{ record with id := tables.nextId }]
        nextId := tables.nextId + 1 }, tables.nextId)

/-- Records are created one after the other. -/
def createAll : VulnerabilityTables → List VulnerabilityRecord → VulnerabilityTables × List ℕ
  | tables, [] => (tables, [])
  | tables, record :: rest =>
    ((createAll (tables.create record).1 rest).1,
      (tables.create record).2 :: (createAll (tables.create record).1 rest).2)

def syncForReport (reportUUID : String) (recordIDs : List ℕ) : VulnerabilityTables :=
  let desired := recordIDs.dedup
  let existing := (tables.associations.filter fun row => row.1 = reportUUID).map Prod.snd
  let toInsert := desired.filter fun id => id ∉ existing
  let toDelete := existing.filter fun id => id ∉ desired
  { tables with
    associations :=
      (tables.associations ++ toInsert.map fun id => (reportUUID, id)).filter fun row =>
        ¬ (row.1 = reportUUID ∧ row.2 ∈ toDelete) }

def getForReport (reportUUID : String) : List VulnerabilityRecord :=
  tables.records.filter fun record => (reportUUID, record.id) ∈ tables.associations

end VulnerabilityTables

/-! ## The converter -/

section Converter

variable (title : String → String)

/-- `toVulnerabilityRecord`; the id is given by the table. -/
def toVulnerabilityRecord (item : VulnerabilityItem) (registrationUUID : String) :
    VulnerabilityRecord where
  id := 0
  cveId := item.id
  registrationUUID := registrationUUID
  package := item.package
  packageVersion := item.version
  severity := item.severity
  status := item.status
  fix := item.fixVersion

def toVulnerabilityItem (record : VulnerabilityRecord) (artifactDigest : String) :
    VulnerabilityItem where
  id := record.cveId
  package := record.package
  version := record.packageVersion
  fixVersion := record.fix
  severity := parseSeverityVersion3 title record.severity
  status := record.status
  artifactDigests := [artifactDigest]

/-- An item with its severity normalised. -/
def VulnerabilityItem.normalise (item : VulnerabilityItem) : VulnerabilityItem :=
  { item with severity := parseSeverityVersion3 title item.severity }

/-- A record whose severity or status is not that of its item gets what the item says. -/
def outOfDate (l : VulnerabilityItemList) (record : VulnerabilityRecord) :
    Option VulnerabilityRecord :=
  match l.getItem record.key with
  | none => none
  | some v =>
    if record.severity ≠ v.severity ∨ record.status ≠ v.status then
      some { record with status := v.status, severity := v.severity, fix := v.fixVersion }
    else none

variable (tables : VulnerabilityTables)

def toSchema (reportUUID registrationUUID : String) (vulnerabilities : List VulnerabilityItem) :
    VulnerabilityTables :=
  let items := vulnerabilities.map (normalise title)
  let l := ({} : VulnerabilityItemList).add items
  let found := (tables.list (items.map VulnerabilityItem.id) registrationUUID).filter
    fun record => (l.getItem record.key).isSome
  let newRecords := (items.filter fun v => v.key ∉ found.map VulnerabilityRecord.key).map
    fun v => toVulnerabilityRecord v registrationUUID
  let updated := (found.filterMap (outOfDate l)).foldl VulnerabilityTables.update tables
  let created := updated.createAll newRecords
  created.1.syncForReport reportUUID (found.map VulnerabilityRecord.id ++ created.2)

/-- `ToRelationalSchema`, for what the text of the report is parsed to; the summary is
stored with the report. -/
def toRelationalSchema (reportUUID registrationUUID : String) (reportData : Option ReportData) :
    VulnerabilityTables × Option ReportData :=
  match reportData with
  | none => (tables.syncForReport reportUUID [], none)
  | some report =>
    (toSchema title tables reportUUID registrationUUID report.vulnerabilities,
      some { report with vulnerabilities := [] })

def fromRelationalSchema (reportUUID artifactDigest : String) (reportSummary : Option ReportData) :
    Option ReportData :=
  reportSummary.map fun summary =>
    let vulnerabilityItems := (tables.getForReport reportUUID).map fun record =>
      toVulnerabilityItem title record artifactDigest
    if 0 < vulnerabilityItems.length then { summary with vulnerabilities := vulnerabilityItems }
    else summary

end Converter

/-! ## Records that are updated -/

section Updates

variable {tables : VulnerabilityTables} {record target : VulnerabilityRecord}
  {outs : List VulnerabilityRecord}

/-- What the updates of some records make of one record. -/
def applyUpdate (record out : VulnerabilityRecord) : VulnerabilityRecord :=
  if record.id = out.id then
    { record with severity := out.severity, fix := out.fix, status := out.status }
  else record

theorem records_foldl_update (tables : VulnerabilityTables) (outs : List VulnerabilityRecord) :
    (outs.foldl VulnerabilityTables.update tables).records =
        tables.records.map (fun record => outs.foldl applyUpdate record) ∧
      (outs.foldl VulnerabilityTables.update tables).nextId = tables.nextId ∧
      (outs.foldl VulnerabilityTables.update tables).associations = tables.associations := by
  induction outs generalizing tables with
  | nil => simp
  | cons out rest ih =>
    obtain ⟨hrecords, hnext, hassociations⟩ := ih (tables.update out)
    refine ⟨?_, hnext, hassociations⟩
    rw [foldl_cons, hrecords, VulnerabilityTables.update, map_map]
    rfl

theorem foldl_applyUpdate_of_ne (hne : ∀ out ∈ outs, record.id ≠ out.id) :
    outs.foldl applyUpdate record = record := by
  induction outs with
  | nil => rfl
  | cons out rest ih =>
    rw [foldl_cons, applyUpdate, if_neg (hne out mem_cons_self)]
    exact ih fun other hother => hne other (mem_cons_of_mem _ hother)

theorem foldl_applyUpdate_of_mem (hsame : ∀ out ∈ outs, record.id = out.id → out = target)
    (hmem : target ∈ outs) (hid : record.id = target.id) :
    outs.foldl applyUpdate record = applyUpdate record target := by
  induction outs generalizing record with
  | nil => cases hmem
  | cons out rest ih =>
    have hrest : ∀ other ∈ rest, record.id = other.id → other = target :=
      fun other hother => hsame other (mem_cons_of_mem _ hother)
    rw [foldl_cons]
    by_cases hout : record.id = out.id
    · obtain rfl := hsame out mem_cons_self hout
      have hkept : (applyUpdate record out).id = record.id := by
        rw [applyUpdate, if_pos hout]
      have htwice : applyUpdate (applyUpdate record out) out = applyUpdate record out := by
        simp only [applyUpdate, if_pos hout]
      by_cases hlater : out ∈ rest
      · rw [ih (fun other hother heq => hrest other hother (hkept ▸ heq)) hlater
          (hkept.trans hid), htwice]
      · refine foldl_applyUpdate_of_ne fun other hother heq => hlater ?_
        rw [← hrest other hother (hkept ▸ heq)]
        exact hother
    · rw [applyUpdate, if_neg hout]
      refine ih hrest ?_ hid
      rcases mem_cons.mp hmem with rfl | hmem
      · exact absurd hid hout
      · exact hmem

end Updates

/-! ## Records that are created -/

section Creation

variable {tables : VulnerabilityTables} {news : List VulnerabilityRecord}

/-- The record is new: it differs from one of the given records in its id only. -/
def Creates (news : List VulnerabilityRecord) (created : VulnerabilityRecord) : Prop :=
  ∃ new ∈ news, ∃ id, created = { new with id := id }

/-- **Spec of the creation.**  Records with new identities are appended, each with an id of
its own. -/
theorem createAll_spec (tables : VulnerabilityTables) (news : List VulnerabilityRecord)
    (hdistinct : (news.map VulnerabilityRecord.identity).Nodup)
    (hnew : ∀ new ∈ news, ∀ record ∈ tables.records, record.identity ≠ new.identity) :
    ∃ created : List VulnerabilityRecord,
      (tables.createAll news).1.records = tables.records ++ created ∧
      (tables.createAll news).2 = created.map VulnerabilityRecord.id ∧
      (tables.createAll news).1.associations = tables.associations ∧
      (∀ record ∈ created, tables.nextId ≤ record.id ∧ Creates news record) ∧
      ∀ new ∈ news, ∃ id, { new with id := id } ∈ created := by
  induction news generalizing tables with
  | nil => exact ⟨[], by simp [VulnerabilityTables.createAll]⟩
  | cons new rest ih =>
    obtain ⟨hfresh, hrestDistinct⟩ := nodup_cons.mp (map_cons ▸ hdistinct)
    have hnone : (tables.records.find? fun other => other.identity = new.identity) = none := by
      rw [find?_eq_none]
      intro record hrecord
      simpa using hnew new mem_cons_self record hrecord
    have hcreate : tables.create new =
        ({ tables with
            records := tables.records ++ [{ new with id := tables.nextId }]
            nextId := tables.nextId + 1 }, tables.nextId) := by
      rw [VulnerabilityTables.create, hnone]
    have hrestNew : ∀ other ∈ rest, ∀ record ∈ (tables.create new).1.records,
        record.identity ≠ other.identity := by
      intro other hother record hrecord
      rw [hcreate] at hrecord
      rcases mem_append.mp hrecord with hrecord | hrecord
      · exact hnew other (mem_cons_of_mem _ hother) record hrecord
      · obtain rfl := mem_singleton.mp hrecord
        exact fun heq => hfresh (heq ▸ mem_map_of_mem hother)
    obtain ⟨created, hrecords, hids, hassociations, hcreated, hall⟩ :=
      ih (tables.create new).1 hrestDistinct hrestNew
    refine ⟨{ new with id := tables.nextId } :: created, ?_, ?_, ?_, ?_, ?_⟩
    · rw [VulnerabilityTables.createAll, hrecords, hcreate]
      simp
    · rw [VulnerabilityTables.createAll, hids, hcreate]
      rfl
    · rw [VulnerabilityTables.createAll, hassociations, hcreate]
    · intro record hrecord
      rcases mem_cons.mp hrecord with rfl | hrecord
      · exact ⟨le_rfl, new, mem_cons_self, tables.nextId, rfl⟩
      · obtain ⟨hle, other, hother, id, heq⟩ := hcreated record hrecord
        rw [hcreate] at hle
        exact ⟨(Nat.le_succ _).trans hle, other, mem_cons_of_mem _ hother, id, heq⟩
    · intro other hother
      rcases mem_cons.mp hother with rfl | hother
      · exact ⟨tables.nextId, mem_cons_self⟩
      · obtain ⟨id, hid⟩ := hall other hother
        exact ⟨id, mem_cons_of_mem _ hid⟩

theorem mem_syncForReport (tables : VulnerabilityTables) (reportUUID : String)
    (recordIDs : List ℕ) (id : ℕ) :
    (reportUUID, id) ∈ (tables.syncForReport reportUUID recordIDs).associations ↔
      id ∈ recordIDs := by
  simp only [VulnerabilityTables.syncForReport, mem_filter, mem_append, mem_map,
    Prod.mk.injEq, true_and, exists_eq_right, mem_dedup, decide_eq_true_eq,
    decide_not, Bool.not_eq_true', decide_eq_false_iff_not, not_and, not_not]
  constructor
  · rintro ⟨hmem | ⟨hdesired, _⟩, hkept⟩
    · exact hkept ⟨_, ⟨hmem, rfl⟩, rfl⟩
    · exact hdesired
  · intro hdesired
    refine ⟨?_, fun _ => hdesired⟩
    by_cases hexisting : (reportUUID, id) ∈ tables.associations
    · exact .inl hexisting
    · refine .inr ⟨hdesired, ?_⟩
      rintro ⟨row, ⟨hrow, huuid⟩, hid⟩
      exact hexisting (by rw [← huuid, ← hid]; exact hrow)

end Creation

/-! ## What is read back -/

/-- The constraints of the tables. -/
structure VulnerabilityTables.Valid (tables : VulnerabilityTables) : Prop where
  id_inj : ∀ record ∈ tables.records, ∀ other ∈ tables.records,
    record.id = other.id → record = other
  id_lt : ∀ record ∈ tables.records, record.id < tables.nextId

/-- The case mapping leaves the names of the severities as they are. -/
def TitleCase (title : String → String) : Prop :=
  ∀ word ∈ ["None", "Low", "Medium", "High", "Critical", "Unknown"], title word = word

/-- What identifies an item in a report, and a record of a scanner. -/
def VulnerabilityItem.triple (item : VulnerabilityItem) : String × String × String :=
  (item.id, item.package, item.version)

def VulnerabilityRecord.triple (record : VulnerabilityRecord) : String × String × String :=
  (record.cveId, record.package, record.packageVersion)

/-- The record of the scanner has an id of the report and the key of an item. -/
def Found (tables : VulnerabilityTables) (registrationUUID : String)
    (items : List VulnerabilityItem) (record : VulnerabilityRecord) : Prop :=
  record ∈ tables.records ∧ record.registrationUUID = registrationUUID ∧
    record.cveId ∈ items.map VulnerabilityItem.id ∧ ∃ item ∈ items, item.key = record.key

/-- The fix version that a record has after the report was written; `first` is the first
item with its key. -/
def fixAfter (record : VulnerabilityRecord) (first : VulnerabilityItem) : String :=
  if record.severity = first.severity ∧ record.status = first.status then record.fix
  else first.fixVersion

/-- What a record is after the report was written. -/
def settle (items : List VulnerabilityItem) (record : VulnerabilityRecord) : VulnerabilityRecord :=
  match firstWith VulnerabilityItem.key items record.key with
  | none => record
  | some first =>
    { record with
      severity := first.severity
      status := first.status
      fix := fixAfter record first }

section ReadBack

variable {title : String → String} {tables : VulnerabilityTables}
  {registrationUUID : String} {items : List VulnerabilityItem}
  {record : VulnerabilityRecord} {l : VulnerabilityItemList} {new : VulnerabilityRecord}

theorem parseSeverityVersion3_mem (title : String → String) (text : String) :
    parseSeverityVersion3 title text ∈
      ["None", "Low", "Medium", "High", "Critical", "Unknown"] := by
  simp only [parseSeverityVersion3]
  split_ifs with hknown hnegligible
  · simp only [mem_cons, not_mem_nil, or_false] at hknown ⊢
    tauto
  · simp
  · simp

/-- A normalised severity is not changed by reading it back. -/
theorem parseSeverityVersion3_idem (htitle : TitleCase title) (text : String) :
    parseSeverityVersion3 title (parseSeverityVersion3 title text) =
      parseSeverityVersion3 title text := by
  have hmem := parseSeverityVersion3_mem title text
  generalize parseSeverityVersion3 title text = severity at hmem
  have hfixed := htitle severity hmem
  unfold parseSeverityVersion3
  simp only [hfixed]
  simp only [mem_cons, not_mem_nil, or_false] at hmem
  rcases hmem with rfl | rfl | rfl | rfl | rfl | rfl <;> decide

@[simp] theorem id_settle : (settle items record).id = record.id := by
  unfold settle
  split <;> rfl

theorem identity_settle : (settle items record).identity = record.identity := by
  unfold settle
  split <;> rfl

/-- The item of the list has the values of the first item with the key. -/
theorem VulnerabilityItemList.Represents.getItem (h : l.Represents items) {key : String}
    {v : VulnerabilityItem} (hv : l.getItem key = some v) :
    ∃ first, firstWith VulnerabilityItem.key items key = some first ∧
      first.finding = v.finding := by
  have hfinding := h.finding key
  rw [VulnerabilityItemList.finding, hv, Option.map_some] at hfinding
  exact Option.map_eq_some_iff.mp hfinding.symm

theorem VulnerabilityItemList.Represents.getItem_isSome (h : l.Represents items) (key : String) :
    (l.getItem key).isSome ↔ ∃ item ∈ items, item.key = key := by
  have hfinding := congrArg Option.isSome (h.finding key)
  rw [VulnerabilityItemList.finding, Option.isSome_map, Option.isSome_map] at hfinding
  rw [hfinding]
  simp [firstWith]

theorem getD_outOfDate (h : l.Represents items) (hfound : ∃ item ∈ items, item.key = record.key) :
    (outOfDate l record).getD record = settle items record := by
  obtain ⟨v, hv⟩ := Option.isSome_iff_exists.mp ((h.getItem_isSome record.key).mpr hfound)
  obtain ⟨first, hfirst, heq⟩ := h.getItem hv
  have hseverity : v.severity = first.severity := (congrArg severity heq).symm
  have hstatus : v.status = first.status := (congrArg status heq).symm
  have hfix : v.fixVersion = first.fixVersion := (congrArg fixVersion heq).symm
  simp only [outOfDate, hv, settle, hfirst, fixAfter, hseverity, hstatus, hfix]
  by_cases hsame : record.severity = first.severity ∧ record.status = first.status
  · have hkept : ¬ (record.severity ≠ first.severity ∨ record.status ≠ first.status) := by tauto
    rw [if_neg hkept, if_pos hsame, Option.getD_none, ← hsame.1, ← hsame.2]
  · have hchanged : record.severity ≠ first.severity ∨ record.status ≠ first.status := by tauto
    rw [if_pos hchanged, if_neg hsame, Option.getD_some]

theorem outOfDate_eq_some {out : VulnerabilityRecord} (hout : outOfDate l record = some out) :
    out.id = record.id ∧ applyUpdate record out = out := by
  unfold outOfDate at hout
  split at hout
  · cases hout
  · split_ifs at hout
    cases hout
    exact ⟨rfl, if_pos rfl⟩

/-- The updates leave the records that were not found, and settle the others. -/
theorem foldl_applyUpdate_outOfDate (hvalid : tables.Valid) {found : List VulnerabilityRecord}
    (hsub : ∀ other ∈ found, other ∈ tables.records) (hrecord : record ∈ tables.records)
    (l : VulnerabilityItemList) :
    (found.filterMap (outOfDate l)).foldl applyUpdate record =
      if record ∈ found then (outOfDate l record).getD record else record := by
  have hown : ∀ out ∈ found.filterMap (outOfDate l), record.id = out.id →
      record ∈ found ∧ outOfDate l record = some out := by
    intro out hout hid
    obtain ⟨other, hother, hotherOut⟩ := mem_filterMap.mp hout
    have hids := (outOfDate_eq_some hotherOut).1
    obtain rfl := hvalid.id_inj record hrecord other (hsub other hother) (hid.trans hids)
    exact ⟨hother, hotherOut⟩
  split_ifs with hfound
  · cases hout : outOfDate l record with
    | none =>
      refine foldl_applyUpdate_of_ne fun out hmem hid => ?_
      rw [(hown out hmem hid).2] at hout
      cases hout
    | some target =>
      obtain ⟨hid, happly⟩ := outOfDate_eq_some hout
      rw [foldl_applyUpdate_of_mem (fun out hmem heq => ?_)
        (mem_filterMap.mpr ⟨record, hfound, hout⟩) hid.symm, happly, Option.getD_some]
      exact Option.some.inj ((hown out hmem heq).2.symm.trans hout)
  · exact foldl_applyUpdate_of_ne fun out hmem hid => hfound (hown out hmem hid).1

variable {vulnerabilities : List VulnerabilityItem}

/-- The records that `toSchema` finds for the items of a report. -/
def foundRecords (tables : VulnerabilityTables) (registrationUUID : String)
    (items : List VulnerabilityItem) : List VulnerabilityRecord :=
  (tables.list (items.map VulnerabilityItem.id) registrationUUID).filter fun record =>
    ((({} : VulnerabilityItemList).add items).getItem record.key).isSome

theorem represents_items (items : List VulnerabilityItem) :
    (({} : VulnerabilityItemList).add items).Represents items :=
  represents_add represents_empty items

theorem mem_foundRecords :
    record ∈ foundRecords tables registrationUUID items ↔
      Found tables registrationUUID items record := by
  simp only [foundRecords, VulnerabilityTables.list, mem_filter,
    (represents_items items).getItem_isSome, Found, decide_eq_true_eq]
  tauto

/-- The records to create. -/
def newRecords (tables : VulnerabilityTables) (registrationUUID : String)
    (items : List VulnerabilityItem) : List VulnerabilityRecord :=
  (items.filter fun v => v.key ∉ (foundRecords tables registrationUUID items).map
    VulnerabilityRecord.key).map fun v => toVulnerabilityRecord v registrationUUID

theorem mem_newRecords :
    new ∈ newRecords tables registrationUUID items ↔
      ∃ item ∈ items, (∀ record, Found tables registrationUUID items record →
        record.key ≠ item.key) ∧ toVulnerabilityRecord item registrationUUID = new := by
  simp only [newRecords, mem_map, mem_filter, mem_foundRecords, decide_eq_true_eq,
    not_exists, not_and, and_assoc, ne_eq]

theorem newRecords_nodup (hdistinct : (items.map triple).Nodup) :
    ((newRecords tables registrationUUID items).map VulnerabilityRecord.identity).Nodup := by
  rw [newRecords, map_map]
  refine List.Nodup.map_on (fun item hitem other hother heq => ?_) ?_
  · have htriple : item.triple = other.triple := by
      simp only [Function.comp_apply, VulnerabilityRecord.identity, toVulnerabilityRecord,
        Prod.mk.injEq, true_and] at heq
      simp [triple, heq]
    exact inj_on_of_nodup_map hdistinct (mem_of_mem_filter hitem) (mem_of_mem_filter hother) htriple
  · exact (List.Nodup.of_map _ hdistinct).filter _

theorem found_of_identity {item : VulnerabilityItem} (hitem : item ∈ items)
    (hrecord : record ∈ tables.records)
    (heq : record.identity = (toVulnerabilityRecord item registrationUUID).identity) :
    Found tables registrationUUID items record ∧ record.key = item.key := by
  simp only [VulnerabilityRecord.identity, toVulnerabilityRecord, Prod.mk.injEq] at heq
  obtain ⟨hid, huuid, hpackage, hversion⟩ := heq
  have hkey : record.key = item.key := by
    rw [VulnerabilityRecord.key, hid, hpackage, hversion, key]
  exact ⟨⟨hrecord, huuid, hid ▸ mem_map_of_mem hitem, item, hitem, hkey.symm⟩, hkey⟩

/-- The found records that are out of date, as they are to be. -/
def updates (tables : VulnerabilityTables) (registrationUUID : String)
    (items : List VulnerabilityItem) : List VulnerabilityRecord :=
  (foundRecords tables registrationUUID items).filterMap
    (outOfDate (({} : VulnerabilityItemList).add items))

theorem foldl_applyUpdate_updates (hvalid : tables.Valid) (hrecord : record ∈ tables.records) :
    (updates tables registrationUUID items).foldl applyUpdate record =
      if record ∈ foundRecords tables registrationUUID items then settle items record
      else record := by
  rw [updates, foldl_applyUpdate_outOfDate hvalid (fun _ h => (mem_foundRecords.mp h).1) hrecord]
  split_ifs with hmem
  · exact getD_outOfDate (represents_items items) (mem_foundRecords.mp hmem).2.2.2
  · rfl

/-- A new record has an identity that is not in the table. -/
theorem identity_ne_of_mem_newRecords (hvalid : tables.Valid)
    (hnew : new ∈ newRecords tables registrationUUID items)
    (hrecord : record ∈ ((updates tables registrationUUID items).foldl VulnerabilityTables.update
      tables).records) : record.identity ≠ new.identity := by
  intro heq
  obtain ⟨item, hitem, hunmatched, rfl⟩ := mem_newRecords.mp hnew
  rw [(records_foldl_update tables _).1] at hrecord
  obtain ⟨old, hold, rfl⟩ := mem_map.mp hrecord
  have hidentity : old.identity = (toVulnerabilityRecord item registrationUUID).identity := by
    rw [← heq, foldl_applyUpdate_updates hvalid hold]
    split_ifs
    · exact identity_settle.symm
    · rfl
  obtain ⟨hfound, hkey⟩ := found_of_identity hitem hold hidentity
  exact hunmatched old hfound hkey

/-- The records of a report are those that were found, settled, and the new ones. -/
structure StoredFor (tables : VulnerabilityTables) (registrationUUID : String)
    (items : List VulnerabilityItem) (stored : List VulnerabilityRecord) : Prop where
  origin : ∀ record ∈ stored,
    (∃ old, Found tables registrationUUID items old ∧ record = settle items old) ∨
      Creates (newRecords tables registrationUUID items) record
  found : ∀ old, Found tables registrationUUID items old → settle items old ∈ stored
  new : ∀ new ∈ newRecords tables registrationUUID items, ∃ id, { new with id := id } ∈ stored

/-- **Spec of `toSchema`.** -/
theorem storedFor_toSchema (hvalid : tables.Valid) (reportUUID registrationUUID : String)
    (hitems : items = vulnerabilities.map (normalise title))
    (hdistinct : (items.map triple).Nodup) :
    StoredFor tables registrationUUID items ((toSchema title tables reportUUID registrationUUID
      vulnerabilities).getForReport reportUUID) := by
  subst hitems
  set items := vulnerabilities.map (normalise title) with hitems
  set found := foundRecords tables registrationUUID items with hfound
  set updated := (updates tables registrationUUID items).foldl VulnerabilityTables.update tables
    with hupdated
  obtain ⟨hrecords, hnext, _⟩ := records_foldl_update tables (updates tables registrationUUID items)
  obtain ⟨created, hcreatedRecords, hids, _, hcreated, hall⟩ :=
    createAll_spec updated (newRecords tables registrationUUID items)
      (newRecords_nodup hdistinct) fun _ hnew _ => identity_ne_of_mem_newRecords hvalid hnew
  have hmem : ∀ record, record ∈ (toSchema title tables reportUUID registrationUUID
      vulnerabilities).getForReport reportUUID ↔
        record ∈ updated.records ++ created ∧
          record.id ∈ found.map VulnerabilityRecord.id ++ created.map VulnerabilityRecord.id := by
    intro record
    rw [VulnerabilityTables.getForReport, mem_filter, decide_eq_true_eq]
    rw [← hcreatedRecords, ← hids]
    exact and_congr_right fun _ => mem_syncForReport _ reportUUID _ record.id
  refine ⟨fun record hrecord => ?_, fun old hold => ?_, fun new hmemNew => ?_⟩
  · obtain ⟨hrecord, hid⟩ := (hmem record).mp hrecord
    rcases mem_append.mp hrecord with hrecord | hrecord
    · rw [hupdated, hrecords] at hrecord
      obtain ⟨old, hold, rfl⟩ := mem_map.mp hrecord
      rw [foldl_applyUpdate_updates hvalid hold] at hid ⊢
      have hfoundOld : old ∈ found := by
        by_contra hnot
        rw [if_neg hnot] at hid
        rcases mem_append.mp hid with hid | hid
        · obtain ⟨other, hother, heq⟩ := mem_map.mp hid
          obtain rfl := hvalid.id_inj other (mem_foundRecords.mp hother).1 old hold heq
          exact hnot hother
        · obtain ⟨other, hother, heq⟩ := mem_map.mp hid
          have hle := (hcreated other hother).1
          rw [hnext] at hle
          exact absurd (heq ▸ hle) (hvalid.id_lt old hold).not_ge
      exact .inl ⟨old, mem_foundRecords.mp hfoundOld, if_pos hfoundOld⟩
    · exact .inr (hcreated record hrecord).2
  · have hfoundOld := mem_foundRecords.mpr hold
    refine (hmem _).mpr ⟨mem_append_left _ ?_, mem_append_left _ ?_⟩
    · rw [hupdated, hrecords]
      refine mem_map.mpr ⟨old, hold.1, ?_⟩
      rw [foldl_applyUpdate_updates hvalid hold.1, if_pos hfoundOld]
    · rw [id_settle]
      exact mem_map_of_mem hfoundOld
  · obtain ⟨id, hid⟩ := hall new hmemNew
    exact ⟨id, (hmem _).mpr ⟨mem_append_right _ hid, mem_append_right _ (mem_map_of_mem hid)⟩⟩

end ReadBack

/-! ## The round trip -/

/-- The same items, up to their order and the artifacts they were found in. -/
def ReadsBack (out items : List VulnerabilityItem) : Prop :=
  ∀ finding, finding ∈ out.map VulnerabilityItem.finding ↔
    finding ∈ items.map VulnerabilityItem.finding

/-- Every record that is found for the report is that of an item, and the first item with
its key has the severity, the status and the fix version that this item needs; and every
item with the key of such a record has a record of its own. -/
def Settled (tables : VulnerabilityTables) (registrationUUID : String)
    (items : List VulnerabilityItem) : Prop :=
  (∀ record, Found tables registrationUUID items record →
    ∀ first, firstWith VulnerabilityItem.key items record.key = some first →
      ∃ item ∈ items, item.triple = record.triple ∧ item.severity = first.severity ∧
        item.status = first.status ∧ item.fixVersion = fixAfter record first) ∧
  ∀ item ∈ items, (∃ record, Found tables registrationUUID items record ∧ record.key = item.key) →
    ∃ record, Found tables registrationUUID items record ∧ record.triple = item.triple

section RoundTrip

variable {title : String → String} {tables : VulnerabilityTables}
  {items : List VulnerabilityItem} {record : VulnerabilityRecord} {item : VulnerabilityItem}

theorem key_of_triple_eq (heq : item.triple = record.triple) : item.key = record.key := by
  simp only [triple, VulnerabilityRecord.triple, Prod.mk.injEq] at heq
  rw [key, VulnerabilityRecord.key, heq.1, heq.2.1, heq.2.2]

theorem finding_eq_iff {v w : VulnerabilityItem} :
    v.finding = w.finding ↔ v.triple = w.triple ∧ v.severity = w.severity ∧
      v.status = w.status ∧ v.fixVersion = w.fixVersion := by
  simp only [finding, triple, mk.injEq, Prod.mk.injEq]
  tauto

/-- What is read back from a record that has settled. -/
theorem finding_settle_eq_iff
    (hnormal : ∀ item ∈ items, parseSeverityVersion3 title item.severity = item.severity)
    {first : VulnerabilityItem} (artifactDigest : String)
    (hfirst : firstWith VulnerabilityItem.key items record.key = some first) :
    item.finding = (toVulnerabilityItem title (settle items record) artifactDigest).finding ↔
      item.triple = record.triple ∧ item.severity = first.severity ∧
        item.status = first.status ∧ item.fixVersion = fixAfter record first := by
  have hseverity := hnormal first (mem_of_firstWith hfirst).1
  rw [finding_eq_iff]
  simp only [toVulnerabilityItem, settle, hfirst, hseverity, triple, VulnerabilityRecord.triple]

/-- What is read back from a new record is its item. -/
theorem finding_toVulnerabilityRecord
    (hnormal : ∀ item ∈ items, parseSeverityVersion3 title item.severity = item.severity)
    (hitem : item ∈ items) (registrationUUID artifactDigest : String) (id : ℕ) :
    (toVulnerabilityItem title { toVulnerabilityRecord item registrationUUID with id := id }
      artifactDigest).finding = item.finding := by
  have hseverity := hnormal item hitem
  simp only [toVulnerabilityItem, toVulnerabilityRecord, finding, hseverity]

section Directions

variable {registrationUUID : String} {stored : List VulnerabilityRecord}
  (hnormal : ∀ item ∈ items, parseSeverityVersion3 title item.severity = item.severity)
  (hstored : StoredFor tables registrationUUID items stored) (artifactDigest : String)

include hnormal hstored

theorem settled_of_readsBack
    (hreads : ReadsBack (stored.map (toVulnerabilityItem title · artifactDigest)) items) :
    Settled tables registrationUUID items := by
  rw [ReadsBack, map_map] at hreads
  refine ⟨fun record hfound first hfirst => ?_, fun item hitem hkey => ?_⟩
  · obtain ⟨item, hitem, heq⟩ := mem_map.mp
      ((hreads _).mp (mem_map_of_mem (hstored.found record hfound)))
    exact ⟨item, hitem, (finding_settle_eq_iff hnormal artifactDigest hfirst).mp heq⟩
  · obtain ⟨record, hrecord, heq⟩ := mem_map.mp ((hreads _).mpr (mem_map_of_mem hitem))
    rcases hstored.origin record hrecord with ⟨old, hold, rfl⟩ | ⟨new, hmem, id, rfl⟩
    · obtain ⟨other, hother, hotherKey⟩ := hold.2.2.2
      obtain ⟨first, hfirst⟩ := exists_firstWith hother hotherKey
      exact ⟨old, hold, ((finding_settle_eq_iff hnormal artifactDigest hfirst).mp heq.symm).1.symm⟩
    · obtain ⟨other, hother, hunmatched, rfl⟩ := mem_newRecords.mp hmem
      obtain ⟨record, hfound, hrecordKey⟩ := hkey
      have hsame : other.finding = item.finding :=
        (finding_toVulnerabilityRecord hnormal hother registrationUUID artifactDigest
          id).symm.trans heq
      exact absurd (hrecordKey.trans (key_of_finding_eq hsame).symm) (hunmatched record hfound)

theorem readsBack_of_settled (htriples : (items.map triple).Nodup)
    (hsettled : Settled tables registrationUUID items) :
    ReadsBack (stored.map (toVulnerabilityItem title · artifactDigest)) items := by
  obtain ⟨hrecords, hitemRecords⟩ := hsettled
  rw [ReadsBack, map_map]
  intro finding
  constructor
  · intro hmem
    obtain ⟨record, hrecord, rfl⟩ := mem_map.mp hmem
    rcases hstored.origin record hrecord with ⟨old, hold, rfl⟩ | ⟨new, hmemNew, id, rfl⟩
    · obtain ⟨other, hother, hotherKey⟩ := hold.2.2.2
      obtain ⟨first, hfirst⟩ := exists_firstWith hother hotherKey
      obtain ⟨item, hitem, hvalues⟩ := hrecords old hold first hfirst
      have heq := (finding_settle_eq_iff hnormal artifactDigest hfirst).mpr hvalues
      exact mem_map.mpr ⟨item, hitem, heq⟩
    · obtain ⟨item, hitem, _, rfl⟩ := mem_newRecords.mp hmemNew
      have heq := finding_toVulnerabilityRecord hnormal hitem registrationUUID artifactDigest id
      exact mem_map.mpr ⟨item, hitem, heq.symm⟩
  · intro hmem
    obtain ⟨item, hitem, rfl⟩ := mem_map.mp hmem
    by_cases hkey : ∃ record, Found tables registrationUUID items record ∧ record.key = item.key
    · obtain ⟨record, hfound, htriple⟩ := hitemRecords item hitem hkey
      obtain ⟨first, hfirst⟩ := exists_firstWith hitem (key_of_triple_eq htriple.symm)
      obtain ⟨other, hother, hvalues⟩ := hrecords record hfound first hfirst
      obtain rfl := inj_on_of_nodup_map htriples hother hitem (hvalues.1.trans htriple)
      rw [(finding_settle_eq_iff hnormal artifactDigest hfirst).mpr hvalues]
      exact mem_map_of_mem (hstored.found record hfound)
    · obtain ⟨id, hid⟩ := hstored.new _ (mem_newRecords.mpr ⟨item, hitem,
        fun record hfound heq => hkey ⟨record, hfound, heq⟩, rfl⟩)
      rw [← finding_toVulnerabilityRecord hnormal hitem registrationUUID artifactDigest id]
      exact mem_map_of_mem hid

end Directions

theorem vulnerabilities_fromRelationalSchema (title : String → String)
    (tables : VulnerabilityTables) (report : ReportData) (reportUUID artifactDigest : String) :
    ∃ out, fromRelationalSchema title tables reportUUID artifactDigest
        (some { report with vulnerabilities := [] }) = some out ∧
      out.vulnerabilities = (tables.getForReport reportUUID).map fun record =>
        toVulnerabilityItem title record artifactDigest := by
  refine ⟨_, rfl, ?_⟩
  dsimp only
  split_ifs with hlength
  · rfl
  · exact (eq_nil_of_length_eq_zero (by omega)).symm

/-- **Round trip.**  A report with pairwise different items is read back as it was written,
with normalised severities, exactly if the records of the scanner settle to its items. -/
theorem roundTrip_iff (htitle : TitleCase title) (hvalid : tables.Valid) (report : ReportData)
    (hdistinct : (report.vulnerabilities.map triple).Nodup)
    (reportUUID registrationUUID artifactDigest : String) :
    (∃ out, fromRelationalSchema title
          (toRelationalSchema title tables reportUUID registrationUUID (some report)).1
          reportUUID artifactDigest
          (toRelationalSchema title tables reportUUID registrationUUID (some report)).2 =
        some out ∧
      ReadsBack out.vulnerabilities
        (report.vulnerabilities.map (normalise title))) ↔
      Settled tables registrationUUID
        (report.vulnerabilities.map (normalise title)) := by
  set items := report.vulnerabilities.map (normalise title) with hitems
  have htriples : (items.map triple).Nodup := by
    rw [hitems, map_map]
    exact hdistinct
  have hnormal : ∀ item ∈ items, parseSeverityVersion3 title item.severity = item.severity := by
    intro item hitem
    obtain ⟨raw, _, rfl⟩ := mem_map.mp hitem
    exact parseSeverityVersion3_idem htitle raw.severity
  have hstored := storedFor_toSchema hvalid reportUUID registrationUUID hitems htriples
  obtain ⟨out, hout, hvulnerabilities⟩ := vulnerabilities_fromRelationalSchema title
    (toSchema title tables reportUUID registrationUUID report.vulnerabilities) report reportUUID
    artifactDigest
  have hexists : (∃ other, fromRelationalSchema title
        (toSchema title tables reportUUID registrationUUID report.vulnerabilities)
        reportUUID artifactDigest (some { report with vulnerabilities := [] }) = some other ∧
      ReadsBack other.vulnerabilities items) ↔ ReadsBack out.vulnerabilities items := by
    rw [hout]
    simp
  refine hexists.trans ?_
  rw [hvulnerabilities]
  exact ⟨settled_of_readsBack hnormal hstored artifactDigest,
    readsBack_of_settled hnormal hstored artifactDigest htriples⟩

end RoundTrip

/-! ## Concrete reports -/

/-- The case mapping of a single word in ASCII. -/
def titleWord (text : String) : String :=
  match text.toList with
  | [] => ""
  | first :: rest => String.ofList (first.toUpper :: rest.map Char.toLower)

theorem titleWord_titleCase : TitleCase titleWord := by
  unfold TitleCase
  decide +kernel

/-- The scanner has reported the vulnerability before, without a fix. -/
def opensslTables (severity : String) : VulnerabilityTables where
  records :=
    [{ id := 1, cveId := "CVE-2024-1", registrationUUID := "trivy", package := "openssl"
       packageVersion := "3.0", severity := severity, status := "affected", fix := "" }]
  nextId := 2

theorem opensslTables_valid (severity : String) : (opensslTables severity).Valid := by
  refine ⟨fun record hrecord other hother _ => ?_, fun record hrecord => ?_⟩
  · rw [mem_singleton.mp hrecord, mem_singleton.mp hother]
  · rw [mem_singleton.mp hrecord]
    exact Nat.one_lt_two

/-- Now there is a fix. -/
def opensslFixed : ReportData where
  vulnerabilities :=
    [{ id := "CVE-2024-1", package := "openssl", version := "3.0", fixVersion := "3.1"
       severity := "HIGH", status := "affected" }]

/-- The severity has changed as well, so the record is updated. -/
theorem roundTrip_iff_fixed :
    ∃ out, fromRelationalSchema titleWord
        (toRelationalSchema titleWord (opensslTables "Low") "report" "trivy"
          (some opensslFixed)).1 "report" "sha256:amd64"
        (toRelationalSchema titleWord (opensslTables "Low") "report" "trivy"
          (some opensslFixed)).2 = some out ∧
      ReadsBack out.vulnerabilities
        (opensslFixed.vulnerabilities.map (normalise titleWord)) := by
  refine (roundTrip_iff titleWord_titleCase (opensslTables_valid "Low") opensslFixed
    (by decide) "report" "trivy" "sha256:amd64").mpr ⟨fun record hfound first hfirst => ?_,
      fun item hitem _ => ?_⟩
  · obtain rfl := mem_singleton.mp hfound.1
    obtain rfl := mem_singleton.mp (mem_of_firstWith hfirst).1
    exact ⟨_, mem_singleton_self _, by decide +kernel⟩
  · obtain rfl := mem_singleton.mp hitem
    refine ⟨_, ⟨mem_singleton_self _, rfl, ?_, _, mem_singleton_self _, ?_⟩, ?_⟩ <;> decide +kernel

/-- Only the fix version has changed: the record is kept and the fix is not read back. -/
theorem roundTrip_loses_fix :
    (opensslTables "High").Valid ∧
    (opensslFixed.vulnerabilities.map triple).Nodup ∧
    (fromRelationalSchema titleWord
        (toRelationalSchema titleWord (opensslTables "High") "report" "trivy"
          (some opensslFixed)).1 "report" "sha256:amd64"
        (toRelationalSchema titleWord (opensslTables "High") "report" "trivy"
          (some opensslFixed)).2).map ReportData.vulnerabilities =
      some [{ id := "CVE-2024-1", package := "openssl", version := "3.0", fixVersion := ""
              severity := "High", status := "affected", artifactDigests := ["sha256:amd64"] }] ∧
    ¬ ReadsBack
      [{ id := "CVE-2024-1", package := "openssl", version := "3.0", fixVersion := ""
         severity := "High", status := "affected", artifactDigests := ["sha256:amd64"] }]
      (opensslFixed.vulnerabilities.map (normalise titleWord)) := by
  refine ⟨opensslTables_valid "High", by decide, by decide +kernel, fun hreads => ?_⟩
  have hmem := (hreads _).mp (mem_map_of_mem (mem_singleton_self _))
  exact absurd hmem (by decide +kernel)

end Harbor.Scan
