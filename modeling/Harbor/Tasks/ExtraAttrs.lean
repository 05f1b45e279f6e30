import Harbor.Data.Split
import Mathlib.Tactic

/-!
# Filters on extra attributes

`querySetter` of the task and of the execution DAO.  The keywords stand in the order in which
the map of a query happens to be iterated.  The query of the DAO for executions asks for all
the extra attributes, the one for tasks for the first that it comes to: with two of them there
is a task that has the first and not the second (`length_le_one_of_conjunctive`).
-/

namespace Harbor.Tasks.ExtraAttrs

open Harbor.Data

abbrev Keywords := List (String × String)

/-- The key behind one of the two spellings of the column. -/
def attrKey (key : String) : Option String :=
  (["ExtraAttrs.", "extra_attrs."].find? fun start => start.toList.isPrefixOf key.toList).map
    fun start => String.ofList (key.toList.drop start.length)

/-- The extra attributes that the keywords ask for. -/
def attrs (keywords : Keywords) : Keywords :=
  keywords.filterMap fun keyword => (attrKey keyword.1).map (·, keyword.2)

section Queries

-- the text at a path of the extra attributes, and what the other keywords select
variable {Row : Type} (extraAttrs : Row → List String → Option String) (others : Row → Bool)
  (keywords : Keywords)

/-- `taskDAO.List`: the loop over the keywords is left at the first extra attribute. -/
def taskList (rows : List Row) : List Row :=
  rows.filter fun row => others row &&
    (attrs keywords).head?.all fun attr => extraAttrs row [attr.1] = some attr.2

def taskCount (rows : List Row) : ℕ :=
  (taskList extraAttrs others keywords rows).length

/-- `executionDAO.List`.  With an empty value the statement for the ids is an empty text. -/
def executionList (rows : List Row) : Option (List Row) :=
  let jsonbStrus := (attrs keywords).filter (·.1 ≠ "")
  if jsonbStrus.any (·.2 = "") then none
  else
    some (rows.filter fun row => others row && jsonbStrus.all fun attr =>
      extraAttrs row (Split.split attr.1 '.') = some attr.2)

/-- The row satisfies the other keywords and has the value of every extra attribute. -/
def Wanted (row : Row) : Bool :=
  others row && (attrs keywords).all fun attr => extraAttrs row [attr.1] = some attr.2

variable {extraAttrs others}

theorem all_head? {list : Keywords} (hone : list.length ≤ 1) (p : String × String → Bool) :
    list.head?.all p = list.all p := by
  rcases list with _ | ⟨attr, _ | ⟨other, rest⟩⟩
  · rfl
  · simp
  · simp at hone

theorem attrs_perm {keywords order : Keywords} (hperm : order.Perm keywords) :
    (attrs order).Perm (attrs keywords) :=
  hperm.filterMap _

theorem wanted_perm {keywords order : Keywords} (hperm : order.Perm keywords) :
    Wanted extraAttrs others order = Wanted extraAttrs others keywords := by
  funext row
  rw [Wanted, Wanted, (attrs_perm hperm).all_eq]

/-- The statement for the ids asks for every attribute, unless a value is empty. -/
theorem executionList_eq {keywords : Keywords}
    (hsingle : ∀ attr ∈ attrs keywords, attr.1 ≠ "" ∧ '.' ∉ attr.1.toList) (rows : List Row) :
    executionList extraAttrs others keywords rows =
      if (attrs keywords).any (·.2 = "") then none
      else some (rows.filter (Wanted extraAttrs others keywords)) := by
  have hjsonb : (attrs keywords).filter (·.1 ≠ "") = attrs keywords :=
    List.filter_eq_self.mpr fun attr hattr => decide_eq_true (hsingle attr hattr).1
  simp only [executionList, hjsonb]
  refine if_congr Iff.rfl rfl ?_
  refine congrArg some (List.filter_congr fun row _ => congrArg (others row && ·) ?_)
  rw [Bool.eq_iff_iff, List.all_eq_true, List.all_eq_true]
  refine forall₂_congr fun attr hattr => ?_
  rw [Split.split_of_notMem (hsingle attr hattr).2]

end Queries

/-- The tasks listed and counted are those that have all the extra attributes, for every table
and every order of the keywords. -/
def TasksConjunctive (keywords : Keywords) : Prop :=
  ∀ (Row : Type) (extraAttrs : Row → List String → Option String) (others : Row → Bool),
    ∀ order : Keywords, order.Perm keywords → ∀ rows : List Row,
      taskList extraAttrs others order rows = rows.filter (Wanted extraAttrs others keywords) ∧
      taskCount extraAttrs others order rows =
        (rows.filter (Wanted extraAttrs others keywords)).length

theorem conjunctive_of_length_le_one {keywords : Keywords} (hone : (attrs keywords).length ≤ 1) :
    TasksConjunctive keywords := by
  intro Row extraAttrs others order hperm rows
  have hlist : taskList extraAttrs others order rows =
      rows.filter (Wanted extraAttrs others order) := by
    refine List.filter_congr fun row _ => ?_
    rw [all_head? ((attrs_perm hperm).length_eq ▸ hone), Wanted]
  rw [← wanted_perm hperm]
  exact ⟨hlist, congrArg List.length hlist⟩

theorem length_le_one_of_conjunctive {keywords : Keywords}
    (hkeys : ((attrs keywords).map Prod.fst).Nodup) (h : TasksConjunctive keywords) :
    (attrs keywords).length ≤ 1 := by
  by_contra hmany
  rcases hattrs : attrs keywords with _ | ⟨first, _ | ⟨second, rest⟩⟩
  · simp [hattrs] at hmany
  · simp [hattrs] at hmany
  -- a task that has the first attribute only
  have hone := (h Unit (fun _ path => if path = [first.1] then some first.2 else none)
    (fun _ => true) keywords (.refl _) [()]).1
  have hne : second.1 ≠ first.1 := by
    rw [hattrs] at hkeys
    simp only [List.map_cons, List.nodup_cons, List.mem_cons, not_or] at hkeys
    exact Ne.symm hkeys.1.1
  simp [taskList, Wanted, hattrs, hne] at hone

/-- **Filters of both DAOs.**  For pairwise different keys of one level, the tasks listed and
counted are those with all the extra attributes exactly if at most one is asked for; executions
are, in any order of the keywords, exactly if no value is empty. -/
theorem filters_conjunctive (keywords : Keywords)
    (hsingle : ∀ attr ∈ attrs keywords, attr.1 ≠ "" ∧ '.' ∉ attr.1.toList)
    (hkeys : ((attrs keywords).map Prod.fst).Nodup) :
    (TasksConjunctive keywords ↔ (attrs keywords).length ≤ 1) ∧
    ∀ (Row : Type) (extraAttrs : Row → List String → Option String) (others : Row → Bool),
      ∀ order : Keywords, order.Perm keywords → ∀ rows : List Row,
        executionList extraAttrs others order rows =
            some (rows.filter (Wanted extraAttrs others keywords)) ↔
          ∀ attr ∈ attrs keywords, attr.2 ≠ "" := by
  refine ⟨⟨length_le_one_of_conjunctive hkeys, conjunctive_of_length_le_one⟩, ?_⟩
  intro Row extraAttrs others order hperm rows
  rw [executionList_eq (fun attr hattr => hsingle attr ((attrs_perm hperm).subset hattr)),
    wanted_perm hperm, (attrs_perm hperm).any_eq]
  split_ifs with hany
  · obtain ⟨attr, hattr, hempty⟩ := List.any_eq_true.mp hany
    exact iff_of_false (by simp) fun hvalues => hvalues attr hattr (of_decide_eq_true hempty)
  · exact iff_of_true rfl fun attr hattr hempty =>
      hany (List.any_eq_true.mpr ⟨attr, hattr, decide_eq_true hempty⟩)

/-- The attributes of a row by their keys. -/
def flatAttrs (row : List (String × String)) (path : List String) : Option String :=
  path.head?.bind (List.lookup · row)

def bothAttrs : Keywords := [("ExtraAttrs.artifact", "42"), ("extra_attrs.scanner", "trivy")]

theorem filters_conjunctive_artifact :
    taskList flatAttrs (fun _ => true) [("ExtraAttrs.artifact", "42")]
        [[("artifact", "42")], [("artifact", "43")]] =
      [[("artifact", "42")], [("artifact", "43")]].filter
        (Wanted flatAttrs (fun _ => true) [("ExtraAttrs.artifact", "42")]) :=
  ((filters_conjunctive _ (by decide +kernel) (by decide +kernel)).1.mpr (by decide +kernel) _ _ _
    _ (List.Perm.refl _) _).1

/-- A task of another scanner is listed, or not, depending on the order. -/
theorem taskList_first_only :
    taskList flatAttrs (fun _ => true) bothAttrs [[("artifact", "42"), ("scanner", "clair")]] =
        [[("artifact", "42"), ("scanner", "clair")]] ∧
    taskList flatAttrs (fun _ => true) bothAttrs.reverse
        [[("artifact", "42"), ("scanner", "clair")]] = [] ∧
    [[("artifact", "42"), ("scanner", "clair")]].filter
        (Wanted flatAttrs (fun _ => true) bothAttrs) = [] := by
  decide +kernel

end Harbor.Tasks.ExtraAttrs
