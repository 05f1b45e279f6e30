import Harbor.Data.Loops
import Harbor.Queries.Model

/-!
# Secret columns and list queries

A field tagged `filter:"false"` is not to be filtered by.  `secretsHidden_iff` says for which
models this keeps its column secret: two tables that differ only in such columns give the same
answer to every list query exactly if no key that the metadata lets through, as a filter, as a
sort or as a default sort, names such a field.

The sufficient direction follows the texts of the request: every key that reaches the mapper
is one the metadata accepts, and a query set that reads no secret field cannot tell the tables
apart.  For the other direction a table with one row or two is enough.
-/

namespace Harbor.Queries

open Harbor.Data List Split

variable {Cell : String → Type}

/-- The rows agree on everything but secret fields. -/
def Row.Agrees (secret : String → Bool) (row other : Row Cell) : Prop :=
  row.pk = other.pk ∧ ∀ name, secret name = false → row.cells name = other.cells name

/-! ## Query sets that read no secret field -/

section Blind

variable {orm : Orm Cell} {secret : String → Bool} {orders : List (String × Bool)} {α : Type*}
  {qs : QuerySet Cell} {first second : List (Row Cell)}

/-- Fields outside the secret ones order agreeing rows in the same way. -/
theorem Orm.before_congr (horders : ∀ order ∈ orders, secret order.1 = false)
    {row other row' other' : Row Cell} (hrow : row.Agrees secret row')
    (hother : other.Agrees secret other') :
    orm.before orders row other = orm.before orders row' other' := by
  induction orders with
  | nil => simp only [before, hrow.1, hother.1]
  | cons order rest ih =>
    obtain ⟨name, desc⟩ := order
    have hname : secret name = false := horders (name, desc) mem_cons_self
    simp only [before, hrow.2 name hname, hother.2 name hname,
      ih fun order horder => horders order (mem_cons_of_mem _ horder)]

variable (hagree : List.Forall₂ (Row.Agrees secret) first second)
include hagree

theorem QuerySet.page_agrees :
    List.Forall₂ (Row.Agrees secret) (qs.page first) (qs.page second) := by
  unfold page
  cases qs.limit with
  | none => exact forall₂_drop _ hagree
  | some limit => exact forall₂_take _ (forall₂_drop _ hagree)

theorem Orm.sorted_agrees (horders : ∀ order ∈ orders, secret order.1 = false)
    {keeps : List (Row Cell → Bool)}
    (hkeeps : ∀ keep ∈ keeps, ∀ row other, row.Agrees secret other → keep row = keep other) :
    List.Forall₂ (Row.Agrees secret) (orm.sorted keeps orders first)
      (orm.sorted keeps orders second) := by
  refine rel_foldr (fun row other hrow rows others hrows => ?_) .nil
    (rel_filter (fun row other hrow => ?_) hagree)
  · induction hrows with
    | nil => exact .cons hrow .nil
    | cons hfirst hrest ih =>
      rw [orderedInsert_cons, orderedInsert_cons, before_congr horders hrow hfirst]
      split_ifs
      · exact .cons hrow (.cons hfirst hrest)
      · exact .cons hfirst ih
  · simp only [all_eq_true]
    exact forall₂_congr fun keep hkeep => by rw [hkeeps keep hkeep row other hrow]

/-- A query set whose filters and orders do not read the secret fields lists the same rows of
both tables. -/
theorem Orm.list_congr (hblind : ∀ orders, qs.orders.mapM orm.order = some orders →
      (∀ order ∈ orders, secret order.1 = false) ∧
        ∀ keeps, qs.filters.mapM orm.keeps = some keeps → ∀ keep ∈ keeps,
          ∀ row other, row.Agrees secret other → keep row = keep other) :
    orm.list qs first = orm.list qs second := by
  rw [list, list]
  cases hkeeps : qs.filters.mapM orm.keeps with
  | none => rfl
  | some keeps =>
    cases horder : qs.orders.mapM orm.order with
    | none => rfl
    | some orders =>
      obtain ⟨hsecret, hkeep⟩ := hblind orders horder
      have hpage := qs.page_agrees (orm.sorted_agrees hagree hsecret (hkeep keeps hkeeps))
      have hpks : List.Forall₂ Eq ((qs.page (orm.sorted keeps orders first)).map Row.pk)
          ((qs.page (orm.sorted keeps orders second)).map Row.pk) :=
        rel_map (fun _ _ hrow => hrow.1) hpage
      rw [forall₂_eq_eq_eq] at hpks
      simp only [Option.bind_eq_bind, Option.bind_some, hpks]

end Blind

/-! ## The keys that reach the mapper -/

section Keys

variable (std : Std) (orm : Orm Cell) (model : Model Cell)

/-- A key that a query text can hold, without an operator. -/
def Delivered (key : String) : Prop :=
  ',' ∉ key.toList ∧ '=' ∉ key.toList ∧ pieces key = [key]

/-- A key of a query that the metadata accepts names the field, and no method handles it. -/
def Model.FiltersBy (name : String) : Prop :=
  ∃ key, Delivered key ∧ orm.field key = some name ∧
    ∃ accepted, (parseModel std model).accepted std key = some accepted ∧
      accepted.filterFunc = none

/-- A key of a sort text that the metadata accepts names the field. -/
def Model.SortsBy (name : String) : Prop :=
  ∃ key : String, ',' ∉ key.toList ∧ orm.field key = some name ∧
    (parseModel std model).sortable key = true

/-- The fields of the default sorts, if the mapper knows all of them. -/
def Model.defaultOrders : Option (List (String × Bool)) :=
  ((parseModel std model).defaultSorts.map SortKey.text).mapM orm.order

/-- Some sort text, if only the empty one, does not make the mapper panic. -/
def Model.Listable : Prop :=
  (model.defaultOrders std orm).isSome ∨ ∃ name, model.SortsBy std orm name

variable {std orm model} {text : String} {rest : List String} {key fieldKey : String}
  {operator : Operator} {value : Pattern} {first name : String} {filter : Filter Cell}
  {sort : String}

/-- Every answer of a loop that succeeds is the answer for one of the items. -/
private theorem exists_of_mem_mapM {α β : Type} {f : α → Option β} {items : List α}
    {answers : List β} (hmap : items.mapM f = some answers) {answer : β}
    (hanswer : answer ∈ answers) : ∃ item ∈ items, f item = some answer := by
  induction items generalizing answers with
  | nil =>
    cases hmap
    cases hanswer
  | cons item rest ih =>
    rw [mapM_cons] at hmap
    obtain ⟨first, hfirst, hmap⟩ := Option.bind_eq_some_iff.mp hmap
    obtain ⟨others, hothers, hmap⟩ := Option.bind_eq_some_iff.mp hmap
    cases hmap
    cases mem_cons.mp hanswer with
    | inl heq => exact ⟨item, mem_cons_self, by rw [hfirst, heq]⟩
    | inr hmem =>
      obtain ⟨found, hfound, hf⟩ := ih hothers hmem
      exact ⟨found, mem_cons_of_mem _ hfound, hf⟩

theorem toList_pieces (hpieces : pieces text = first :: rest) :
    ∃ others, Split.splitDouble '_' text.toList = first.toList :: others := by
  obtain ⟨chars, others, hsplit, rfl, -⟩ := map_eq_cons_iff.mp hpieces
  exact ⟨others, by rw [hsplit, String.toList_ofList]⟩

theorem pieces_head (hpieces : pieces text = first :: rest) : pieces first = [first] := by
  obtain ⟨others, hsplit⟩ := toList_pieces hpieces
  rw [pieces, splitDouble_head hsplit, map_singleton, String.ofList_toList]

/-- The first piece of a key of a query is a key by itself. -/
theorem delivered_of_pieces (hcomma : ',' ∉ key.toList) (hequal : '=' ∉ key.toList)
    (hpieces : pieces key = fieldKey :: rest) : Delivered fieldKey := by
  obtain ⟨others, hsplit⟩ := toList_pieces hpieces
  obtain ⟨tail, htail⟩ := eq_append_of_splitDouble hsplit
  rw [htail, mem_append, not_or] at hcomma hequal
  exact ⟨hcomma.1, hequal.1, pieces_head hpieces⟩

theorem Orm.field_of_parse (hpieces : pieces key = fieldKey :: rest)
    (hparse : orm.parse key = some (name, operator)) : orm.field fieldKey = some name := by
  rw [parse, hpieces] at hparse
  match rest with
  | [] =>
    obtain ⟨found, hfound, heq⟩ := Option.map_eq_some_iff.mp hparse
    cases heq
    exact hfound
  | [text] =>
    obtain ⟨found, hfound, hparse⟩ := Option.bind_eq_some_iff.mp hparse
    obtain ⟨_, _, heq⟩ := Option.bind_eq_some_iff.mp hparse
    cases heq
    exact hfound
  | _ :: _ :: _ => cases hparse

theorem underscore_notMem_of_ofText (htext : Operator.ofText text = some operator) :
    '_' ∉ text.toList := by
  unfold Operator.ofText at htext
  split at htext
  all_goals
    cases htext
    try decide

/-- An operator is split off from the end of an expression. -/
private theorem append_inj_of_notMem {first second before after : List Char}
    (hfirst : '_' ∉ first) (hsecond : '_' ∉ second)
    (heq : before ++ '_' :: '_' :: first = after ++ '_' :: '_' :: second) : before = after := by
  have hreverse := congrArg (cut '_' ∘ reverse) heq
  simp only [Function.comp_apply, reverse_append, reverse_cons, append_assoc,
    cons_append, nil_append] at hreverse
  rw [cut_append (by simpa using hfirst), cut_append (by simpa using hsecond)] at hreverse
  have hboth : first = second ∧ before = after := by simpa using hreverse
  exact hboth.2

/-- With an operator appended to it, a key of one piece still names the same field, and a
longer one names none. -/
theorem Orm.field_of_parse_append {suffix : String} (hsuffix : '_' ∉ suffix.toList)
    (hpieces : pieces key = fieldKey :: rest)
    (hparse : orm.parse (key ++ "__" ++ suffix) = some (name, operator)) :
    orm.field fieldKey = some name := by
  have htext : (key ++ "__" ++ suffix).toList = key.toList ++ '_' :: '_' :: suffix.toList := by
    simp
  have hlength : 2 ≤ (pieces (key ++ "__" ++ suffix)).length := by
    rw [pieces, length_map, htext]
    exact two_le_length_splitDouble _ _
  rw [parse] at hparse
  match hwhole : pieces (key ++ "__" ++ suffix) with
  | [] | [_] => simp [hwhole] at hlength
  | _ :: _ :: _ :: _ =>
    rw [hwhole] at hparse
    cases hparse
  | [first, text] =>
    rw [hwhole] at hparse
    obtain ⟨found, hfound, hparse⟩ := Option.bind_eq_some_iff.mp hparse
    obtain ⟨found', hoperator, heq⟩ := Option.bind_eq_some_iff.mp hparse
    cases heq
    obtain ⟨chars, others, hsplit, rfl, hothers⟩ := map_eq_cons_iff.mp hwhole
    obtain ⟨textChars, last, rfl, rfl, hlast⟩ := map_eq_cons_iff.mp hothers
    obtain rfl := map_eq_nil_iff.mp hlast
    -- the operator of the mapper is the one that was appended
    have hjoin : ['_', '_'].intercalate [chars, textChars] =
        key.toList ++ '_' :: '_' :: suffix.toList := by
      rw [← hsplit, intercalate_splitDouble, htext]
    have hnot := underscore_notMem_of_ofText hoperator
    have hkey : chars = key.toList := append_inj_of_notMem hnot hsuffix (by simpa using hjoin)
    rw [hkey, String.ofList_toList] at hfound hwhole
    obtain rfl : key = fieldKey := by
      have hone := pieces_head hwhole
      rw [hpieces] at hone
      cases hone
      rfl
    exact hfound

/-- The entries of the metadata are those of the fields and of the methods. -/
theorem mem_keys_of_lookup {accepted : Key Cell}
    (hlookup : (parseModel std model).keys.lookup key = some accepted) :
    (∃ field ∈ model.fields, (key = field.name ∨ key = parseColumn std field) ∧
      accepted.filterable = parseFilterable field ∧
      accepted.sortable = (parseSortable field).2 ∧ accepted.filterFunc = none) ∨
    ∃ method ∈ model.filterBys, accepted.filterFunc = some method.keeps := by
  obtain ⟨before, after, hkeys, -⟩ := lookup_eq_some_iff.mp hlookup
  have hmem : (key, accepted) ∈ (parseModel std model).keys := by rw [hkeys]; simp
  simp only [parseModel, mem_reverse, mem_append, mem_flatMap, mem_cons,
    not_mem_nil, or_false] at hmem
  obtain ⟨field, hfield, hentry | hentry⟩ | ⟨method, hmethod, hentry | hentry⟩ := hmem
  · cases hentry
    exact .inl ⟨field, mem_of_mem_filter hfield, .inl rfl, rfl, rfl, rfl⟩
  · cases hentry
    exact .inl ⟨field, mem_of_mem_filter hfield, .inr rfl, rfl, rfl, rfl⟩
  · cases hentry
    exact .inr ⟨method, hmethod, rfl⟩
  · cases hentry
    exact .inr ⟨method, hmethod, rfl⟩

/-- A filter function is that of a `FilterBy` method. -/
theorem exists_filterBy_of_accepted {accepted : Key Cell}
    {keeps : String → Pattern → Row Cell → Bool}
    (haccepted : (parseModel std model).accepted std fieldKey = some accepted)
    (hfunc : accepted.filterFunc = some keeps) :
    ∃ method ∈ model.filterBys, method.keeps = keeps := by
  have hfilterable : ∃ key, (parseModel std model).filterable key = some accepted := by
    rw [Metadata.accepted] at haccepted
    split at haccepted
    · next hkey => exact ⟨fieldKey, hkey.trans haccepted⟩
    · exact ⟨_, haccepted⟩
  obtain ⟨key, hkey⟩ := hfilterable
  rcases mem_keys_of_lookup (Option.filter_eq_some_iff.mp hkey).1 with
    ⟨_, _, _, _, _, hnone⟩ | ⟨method, hmethod, hsome⟩
  · cases hnone.symm.trans hfunc
  · exact ⟨method, hmethod, Option.some.inj (hsome.symm.trans hfunc)⟩

/-- The expressions for a value are the key, with one of four operators behind it or none. -/
theorem expr_of_mem_filtersOf (hfilter : filter ∈ filtersOf key value) :
    ∃ text args, filter = .expr text args ∧
      (text = key ∨ ∃ suffix : String, '_' ∉ suffix.toList ∧ text = key ++ "__" ++ suffix) := by
  have hsuffix : ∀ whole suffix : String, whole = "__" ++ suffix →
      key ++ whole = key ++ "__" ++ suffix := by
    intro whole suffix hwhole
    rw [hwhole, String.append_assoc]
  unfold filtersOf at hfilter
  split at hfilter
  · obtain rfl := mem_singleton.mp hfilter
    exact ⟨_, _, rfl, .inr ⟨"icontains", by decide, hsuffix _ _ (by decide)⟩⟩
  · simp only [mem_append, Option.mem_toList, Option.map_eq_some_iff] at hfilter
    obtain ⟨value, -, rfl⟩ | ⟨value, -, rfl⟩ := hfilter
    · exact ⟨_, _, rfl, .inr ⟨"gte", by decide, hsuffix _ _ (by decide)⟩⟩
    · exact ⟨_, _, rfl, .inr ⟨"lte", by decide, hsuffix _ _ (by decide)⟩⟩
  · obtain rfl := mem_singleton.mp hfilter
    exact ⟨_, _, rfl, .inr ⟨"in", by decide, hsuffix _ _ (by decide)⟩⟩
  · obtain rfl := mem_singleton.mp hfilter
    exact ⟨_, _, rfl, .inr ⟨"in", by decide, hsuffix _ _ (by decide)⟩⟩
  · cases hfilter
  · obtain rfl := mem_singleton.mp hfilter
    exact ⟨_, _, rfl, .inl rfl⟩

/-- What a filter of an accepted key tests: a method decides, or a cell of a field that the
metadata lets through. -/
theorem keep_of_mem_setFilter {keep : Row Cell → Bool} (hcomma : ',' ∉ key.toList)
    (hequal : '=' ∉ key.toList) (hfilter : filter ∈ setFilter std (parseModel std model) key value)
    (hkeep : orm.keeps filter = some keep) :
    (∃ method ∈ model.filterBys, keep = method.keeps key value) ∨
      ∃ name operator args, model.FiltersBy std orm name ∧
        keep = fun row => orm.test name operator args (row.cells name) := by
  unfold setFilter at hfilter
  split at hfilter
  · next fieldKey rest hpieces =>
    cases haccepted : (parseModel std model).accepted std fieldKey with
    | none => simp [haccepted] at hfilter
    | some accepted =>
      simp only [haccepted] at hfilter
      split_ifs at hfilter
      · cases hfilter
      · cases hfilter
      · cases hfunc : accepted.filterFunc with
        | some keeps =>
          rw [hfunc] at hfilter
          obtain rfl := mem_singleton.mp hfilter
          cases hkeep
          obtain ⟨method, hmethod, rfl⟩ := exists_filterBy_of_accepted haccepted hfunc
          exact .inl ⟨method, hmethod, rfl⟩
        | none =>
          rw [hfunc] at hfilter
          obtain ⟨text, args, rfl, htext⟩ := expr_of_mem_filtersOf hfilter
          obtain ⟨⟨name, operator⟩, hparse, rfl⟩ := Option.map_eq_some_iff.mp hkeep
          have hfield : orm.field fieldKey = some name := by
            obtain rfl | ⟨suffix, hsuffix, rfl⟩ := htext
            · exact orm.field_of_parse hpieces hparse
            · exact orm.field_of_parse_append hsuffix hpieces hparse
          exact .inr ⟨name, operator, args,
            ⟨fieldKey, delivered_of_pieces hcomma hequal hpieces, hfield, accepted,
              haccepted, hfunc⟩, rfl⟩
  · cases hfilter

/-- The keys of a query hold no separators of the query text. -/
theorem key_of_parseKeyword {param : String} (hparam : ',' ∉ param.toList)
    (hparse : parseKeyword std param = .ok (key, value)) : ',' ∉ key.toList ∧ '=' ∉ key.toList := by
  unfold parseKeyword at hparse
  split at hparse
  · cases hparse
  · next keyChars valueChars hcut =>
    split_ifs at hparse
    split at hparse
    · cases hparse
    · cases hparse
      obtain ⟨hwhole, hequal⟩ := eq_append_of_cut hcut
      rw [hwhole, mem_append, not_or] at hparam
      rw [String.toList_ofList]
      exact ⟨hparam.1, hequal⟩

theorem keys_of_parseKeywords {q : String} {keywords : List (String × Pattern)}
    (hparse : parseKeywords std q = .ok keywords) :
    ∀ keyword ∈ keywords, ',' ∉ keyword.1.toList ∧ '=' ∉ keyword.1.toList := by
  unfold parseKeywords at hparse
  split_ifs at hparse with hempty
  · cases hparse
    simp
  · -- what has been stored so far holds no separators either
    refine foldlM_invariant
      (fun stored => ∀ keyword ∈ stored, ',' ∉ keyword.1.toList ∧ '=' ∉ keyword.1.toList)
      (fun param hparam stored next hstored hnext => ?_) (by simp) hparse
    obtain ⟨keyword, hkeyword, hnext⟩ := bind_eq_ok.mp hnext
    cases hnext
    intro other hother
    cases mem_append.mp hother with
    | inl hold => exact hstored other (mem_of_mem_filter hold)
    | inr hnew =>
      obtain rfl := mem_singleton.mp hnew
      exact key_of_parseKeyword (notMem_of_mem_split hparam) hkeyword

/-! ## Sorts -/

theorem parseSort_text (sorting : String) :
    parseSort (parseSort sorting).text = parseSort sorting := by
  by_cases hdesc : ∃ after, sorting.toList = '-' :: after
  · obtain ⟨after, hafter⟩ := hdesc
    have hsort : parseSort sorting = ⟨String.ofList after, true⟩ := by
      simp only [parseSort, hafter]
    have htext : ("-" ++ String.ofList after).toList = '-' :: after := by simp
    rw [hsort, SortKey.text, if_pos rfl]
    simp only [parseSort, htext]
  · have hsort : parseSort sorting = ⟨sorting, false⟩ := by
      unfold parseSort
      split
      · next after hafter => exact absurd ⟨after, hafter⟩ hdesc
      · rfl
    rw [hsort, SortKey.text, if_neg (by simp), hsort]

theorem comma_notMem_of_mem_parseSorting {key : SortKey} (hkey : key ∈ parseSorting sort) :
    ',' ∉ key.key.toList ∧ parseSort key.text = key := by
  unfold parseSorting at hkey
  split_ifs at hkey
  · cases hkey
  · obtain ⟨sorting, hsorting, rfl⟩ := mem_map.mp hkey
    refine ⟨?_, parseSort_text sorting⟩
    have hcomma := notMem_of_mem_split hsorting
    unfold parseSort
    split
    · next after hafter =>
        rw [hafter, mem_cons, not_or] at hcomma
        rw [String.toList_ofList]
        exact hcomma.2
    · exact hcomma

/-- The orders of a query set are the default ones or those of accepted keys; in both cases
the model can be listed. -/
theorem orders_cases {query : Query} (hsorts : query.sorts = parseSorting sort)
    {orders : List (String × Bool)}
    (horders : (setSorts (parseModel std model) query).mapM orm.order = some orders) :
    model.defaultOrders std orm = some orders ∨
      (∀ order ∈ orders, model.SortsBy std orm order.1) ∧ orders ≠ [] := by
  unfold setSorts at horders
  simp only at horders
  split_ifs at horders with hnil
  · exact .inl horders
  · refine .inr ⟨?_, ?_⟩
    · intro order horder
      obtain ⟨text, htext, hfield⟩ := exists_of_mem_mapM horders horder
      obtain ⟨key, hkey, rfl⟩ := mem_map.mp htext
      obtain ⟨hmem, hsortable⟩ := mem_filter.mp hkey
      rw [hsorts] at hmem
      obtain ⟨hcomma, hparse⟩ := comma_notMem_of_mem_parseSorting hmem
      obtain ⟨name, hname, rfl⟩ := Option.map_eq_some_iff.mp hfield
      rw [hparse] at hname
      exact ⟨key.key, hcomma, hname, hsortable⟩
    · rintro rfl
      obtain ⟨text, rest, htexts⟩ := exists_cons_of_ne_nil hnil
      rw [htexts, mapM_cons] at horders
      obtain ⟨_, _, horders⟩ := Option.bind_eq_some_iff.mp horders
      obtain ⟨_, _, horders⟩ := Option.bind_eq_some_iff.mp horders
      cases horders

end Keys

/-! ## The condition -/

section Hidden

variable (std : Std) (orm : Orm Cell) (model : Model Cell)

/-- Tables that differ only in secret fields give the same answer to every list query. -/
def SecretsHidden : Prop :=
  ∀ first second : List (Row Cell), List.Forall₂ (Row.Agrees model.secret) first second →
    ∀ (q sort : String) (pageNumber pageSize : Int64),
      listed orm std model first q sort pageNumber pageSize =
        listed orm std model second q sort pageNumber pageSize

/-- The methods of the model do not read the secret fields. -/
def FilterBysBlind : Prop :=
  ∀ method ∈ model.filterBys, ∀ key value row other, row.Agrees model.secret other →
    method.keeps key value row = method.keeps key value other

/-- No key that the metadata lets through names a secret field. -/
structure NoSecretKey : Prop where
  sorts : ∀ name, model.SortsBy std orm name → model.secret name = false
  defaults : ∀ orders, model.defaultOrders std orm = some orders →
    ∀ order ∈ orders, model.secret order.1 = false
  filters : model.Listable std orm → ∀ name, model.FiltersBy std orm name →
    model.secret name = false

variable {std orm model} {orders : List (String × Bool)} {key name : String} {sort text : String}

theorem secretsHidden_of_noSecretKey (hblind : FilterBysBlind model)
    (hkeys : NoSecretKey std orm model) : SecretsHidden std orm model := by
  intro first second hagree q sort pageNumber pageSize
  unfold listed
  cases hbuild : build std q sort pageNumber pageSize with
  | error message => rfl
  | ok query =>
    have hquery : parseKeywords std q = .ok query.keywords ∧ query.sorts = parseSorting sort := by
      unfold build at hbuild
      cases hparse : parseKeywords std q with
      | error message =>
        rw [hparse] at hbuild
        cases hbuild
      | ok keywords =>
        rw [hparse] at hbuild
        cases hbuild
        exact ⟨rfl, rfl⟩
    refine orm.list_congr hagree fun orders horders => ?_
    have hcases := orders_cases hquery.2 horders
    have hsecret : ∀ order ∈ orders, model.secret order.1 = false := by
      cases hcases with
      | inl hdefault => exact hkeys.defaults orders hdefault
      | inr hsorts => exact fun order horder => hkeys.sorts _ (hsorts.1 order horder)
    have hlistable : model.Listable std orm := by
      cases hcases with
      | inl hdefault => exact .inl (by rw [hdefault]; rfl)
      | inr hsorts =>
        obtain ⟨order, horder⟩ := exists_mem_of_ne_nil orders hsorts.2
        exact .inr ⟨_, hsorts.1 order horder⟩
    refine ⟨hsecret, fun keeps hkeeps keep hkeep row other hrows => ?_⟩
    obtain ⟨filter, hfilter, hkeepOf⟩ := exists_of_mem_mapM hkeeps hkeep
    obtain ⟨⟨key, value⟩, hkeyword, hfilter⟩ := mem_flatMap.mp hfilter
    obtain ⟨hcomma, hequal⟩ := keys_of_parseKeywords hquery.1 _ hkeyword
    obtain ⟨method, hmethod, rfl⟩ | ⟨name, operator, args, hname, rfl⟩ :=
      keep_of_mem_setFilter hcomma hequal hfilter hkeepOf
    · exact hblind method hmethod key value row other hrows
    · simp only [hrows.2 name (hkeys.filters hlistable name hname)]

/-! ## Telling two tables apart -/

/-- The text is the value of an exact match. -/
def PlainText (text : String) : Prop :=
  ',' ∉ text.toList ∧ ∃ c rest, text.toList = c :: rest ∧
    c ∉ ['~', '[', '\x7b', '(', '\\']

/-- The documented behaviour of the code outside the repository: every text can be escaped
for a query, and the database compares the cells of a secret field, for equality with a text
and among themselves. -/
structure Documented (std : Std) (orm : Orm Cell) (model : Model Cell) : Prop where
  escaped : ∀ text : String, text ≠ "" → ∃ raw : String, raw ≠ "" ∧
    std.queryUnescape raw = some text
  exact : ∀ name, model.secret name = true → ∃ (text : String) (yes no : Cell name),
    PlainText text ∧ orm.test name .exact [.text text] yes = true ∧
      orm.test name .exact [.text text] no = false
  ordered : ∀ name, model.secret name = true → ∃ low high : Cell name,
    orm.le name low high = true ∧ orm.le name high low = false

theorem listed_eq {table : List (Row Cell)} {q : String} {keywords : List (String × Pattern)}
    {keeps : List (Row Cell → Bool)} (hkeywords : parseKeywords std q = .ok keywords)
    (hkeeps : (setFilters std (parseModel std model) ⟨keywords, parseSorting sort, 0, 0⟩).mapM
      orm.keeps = some keeps)
    (horders : (setSorts (parseModel std model) ⟨keywords, parseSorting sort, 0, 0⟩).mapM
      orm.order = some orders) :
    listed orm std model table q sort 0 0 =
      some ((orm.sorted keeps orders table).map Row.pk) := by
  have hbuild : build std q sort 0 0 = .ok ⟨keywords, parseSorting sort, 0, 0⟩ := by
    rw [build, hkeywords]
    rfl
  simp only [listed, hbuild, Orm.list, querySetter, hkeeps, horders]
  rfl

theorem sorted_pair (orders : List (String × Bool)) (row other : Row Cell) :
    orm.sorted [] orders [row, other] =
      if orm.before orders row other = true then [row, other] else [other, row] := by
  simp [Orm.sorted]

/-- A key of a sort text is read as it is written, in descending order. -/
theorem setSorts_key (hcomma : ',' ∉ key.toList)
    (hsortable : (parseModel std model).sortable key = true) (keywords : List (String × Pattern)) :
    setSorts (parseModel std model) ⟨keywords, parseSorting ("-" ++ key), 0, 0⟩ =
      ["-" ++ key] := by
  have htext : ("-" ++ key).toList = '-' :: key.toList := by simp
  have hne : "-" ++ key ≠ "" := fun hempty => by simp [hempty] at htext
  have hsplit : split ("-" ++ key) ',' = ["-" ++ key] := split_of_notMem (by simp [htext, hcomma])
  have hparse : parseSorting ("-" ++ key) = [⟨key, true⟩] := by
    simp [parseSorting, hne, hsplit, parseSort, htext]
  simp [setSorts, hparse, hsortable, SortKey.text]

theorem order_key (hfield : orm.field key = some name) :
    ["-" ++ key].mapM orm.order = some [(name, true)] := by
  have htext : ("-" ++ key).toList = '-' :: key.toList := by simp
  simp [Orm.order, parseSort, htext, hfield]

theorem setSorts_empty (keywords : List (String × Pattern)) :
    setSorts (parseModel std model) ⟨keywords, parseSorting "", 0, 0⟩ =
      (parseModel std model).defaultSorts.map SortKey.text := by
  simp [setSorts, parseSorting]

theorem exists_orders_of_listable (hlistable : model.Listable std orm)
    (keywords : List (String × Pattern)) : ∃ sort orders,
      (setSorts (parseModel std model) ⟨keywords, parseSorting sort, 0, 0⟩).mapM orm.order =
        some orders := by
  obtain hdefault | ⟨name, key, hcomma, hfield, hsortable⟩ := hlistable
  · obtain ⟨orders, horders⟩ := Option.isSome_iff_exists.mp hdefault
    refine ⟨"", orders, ?_⟩
    rw [setSorts_empty]
    exact horders
  · refine ⟨"-" ++ key, [(name, true)], ?_⟩
    rw [setSorts_key hcomma hsortable]
    exact order_key hfield

theorem parsePattern_of_plainText (hplain : PlainText text) :
    parsePattern std text = .ok (.exact text) := by
  obtain ⟨-, c, rest, htext, hc⟩ := hplain
  simp only [mem_cons, not_mem_nil, or_false, not_or] at hc
  unfold parsePattern
  rw [htext]
  split <;> simp_all

theorem parseKeywords_key {raw : String} (hraw : raw ≠ "")
    (hunescape : std.queryUnescape raw = some (key ++ "=" ++ text)) (hkey : Delivered key)
    (hne : key ≠ "") (hplain : PlainText text) :
    parseKeywords std raw = .ok [(key, .exact text)] := by
  have hchars : (key ++ "=" ++ text).toList = key.toList ++ '=' :: text.toList := by simp
  have hsplit : split (key ++ "=" ++ text) ',' = [key ++ "=" ++ text] := by
    apply split_of_notMem
    simp [hchars, hkey.1, hplain.1]
  have hkeyword : parseKeyword std (key ++ "=" ++ text) = .ok (key, .exact text) := by
    have htext : text.toList ≠ [] := by
      obtain ⟨-, c, rest, htext, -⟩ := hplain
      simp [htext]
    have hkeyChars : key.toList ≠ [] := by simpa using hne
    simp only [parseKeyword, hchars, cut_append hkey.2.1, hkeyChars, htext, or_self,
      if_false, String.ofList_toList, parsePattern_of_plainText hplain]
  simp only [parseKeywords, hraw, if_false, hunescape, Option.getD_some, hsplit,
    foldlM_cons, foldlM_nil, hkeyword]
  rfl

variable [∀ name, Inhabited (Cell name)]

/-- A row that is blank but for one field. -/
def rowWith (name : String) (pk : ℕ) (cell : Cell name) : Row Cell :=
  ⟨pk, Function.update (fun _ => default) name cell⟩

theorem rowWith_agrees (hsecret : model.secret name = true) (pk : ℕ) (cell other : Cell name) :
    (rowWith name pk cell).Agrees model.secret (rowWith name pk other) := by
  refine ⟨rfl, fun field hfield => ?_⟩
  have hne : field ≠ name := by
    rintro rfl
    rw [hsecret] at hfield
    cases hfield
  simp [rowWith, hne]

/-- Rows that differ in one field only are ordered by the first order for that field. -/
theorem before_rowWith {low high : Cell name} (hle : orm.le name low high = true)
    (hge : orm.le name high low = false) (horders : ∃ order ∈ orders, order.1 = name) :
    ∃ desc : Bool, ∀ pk other,
      orm.before orders (rowWith name pk low) (rowWith name other high) = !desc ∧
        orm.before orders (rowWith name pk high) (rowWith name other low) = desc := by
  induction orders with
  | nil => simp at horders
  | cons order rest ih =>
    obtain ⟨field, desc⟩ := order
    by_cases hfield : field = name
    · subst hfield
      refine ⟨desc, fun pk other => ?_⟩
      cases desc <;> simp [Orm.before, rowWith, hle, hge]
    · have hrest : ∃ order ∈ rest, order.1 = name := by
        obtain ⟨order, horder, hname⟩ := horders
        cases mem_cons.mp horder with
        | inl heq => exact absurd (by rw [← hname, heq]) hfield
        | inr hmem => exact ⟨order, hmem, hname⟩
      obtain ⟨first, hfirst⟩ := ih hrest
      refine ⟨first, fun pk other => ?_⟩
      simpa [Orm.before, rowWith, hfield] using hfirst pk other

/-- An order by a secret field tells two tables of two rows apart. -/
theorem not_secretsHidden_of_orders (hdoc : Documented std orm model)
    (horders : (setSorts (parseModel std model) ⟨[], parseSorting sort, 0, 0⟩).mapM
      orm.order = some orders) (hname : ∃ order ∈ orders, order.1 = name)
    (hsecret : model.secret name = true) : ¬ SecretsHidden std orm model := by
  intro hhidden
  obtain ⟨low, high, hle, hge⟩ := hdoc.ordered name hsecret
  obtain ⟨desc, hbefore⟩ := before_rowWith hle hge hname
  have hsame := hhidden [rowWith name 1 low, rowWith name 2 high]
    [rowWith name 1 high, rowWith name 2 low]
    (.cons (rowWith_agrees hsecret 1 low high) (.cons (rowWith_agrees hsecret 2 high low) .nil))
    "" sort 0 0
  have hkeeps : (setFilters std (parseModel std model) ⟨[], parseSorting sort, 0, 0⟩).mapM
      orm.keeps = some [] := rfl
  rw [listed_eq rfl hkeeps horders, listed_eq rfl hkeeps horders] at hsame
  rw [sorted_pair, sorted_pair, (hbefore 1 2).1, (hbefore 1 2).2] at hsame
  cases desc with
  | false | true => simp [rowWith] at hsame

/-- A filter by a secret field tells two tables of one row apart. -/
theorem not_secretsHidden_of_filtersBy (hdoc : Documented std orm model)
    (hlistable : model.Listable std orm) (hname : model.FiltersBy std orm name)
    (hsecret : model.secret name = true) : ¬ SecretsHidden std orm model := by
  intro hhidden
  obtain ⟨key, hdelivered, hfield, accepted, haccepted, hfunc⟩ := hname
  obtain ⟨text, yes, no, hplain, hyes, hno⟩ := hdoc.exact name hsecret
  have hne : key ≠ "" := by
    rintro rfl
    rw [orm.field_empty] at hfield
    cases hfield
  obtain ⟨raw, hraw, hunescape⟩ := hdoc.escaped (key ++ "=" ++ text) (by simp)
  obtain ⟨sort, orders, horders⟩ := exists_orders_of_listable hlistable [(key, .exact text)]
  have hkeywords := parseKeywords_key hraw hunescape hdelivered hne hplain
  have hkeeps : (setFilters std (parseModel std model)
      ⟨[(key, .exact text)], parseSorting sort, 0, 0⟩).mapM orm.keeps =
        some [fun row => orm.test name .exact [.text text] (row.cells name)] := by
    simp [setFilters, setFilter, hdelivered.2.2, haccepted, hfunc, filtersOf, Orm.keeps,
      Orm.parse, hfield]
  have hsame := hhidden [rowWith name 1 yes] [rowWith name 1 no]
    (.cons (rowWith_agrees hsecret 1 yes no) .nil) raw sort 0 0
  rw [listed_eq hkeywords hkeeps horders, listed_eq hkeywords hkeeps horders] at hsame
  simp [Orm.sorted, rowWith, hyes, hno] at hsame

theorem noSecretKey_of_secretsHidden (hdoc : Documented std orm model)
    (hhidden : SecretsHidden std orm model) : NoSecretKey std orm model where
  sorts := by
    rintro name ⟨key, hcomma, hfield, hsortable⟩
    by_contra hsecret
    have horders : (setSorts (parseModel std model) ⟨[], parseSorting ("-" ++ key), 0, 0⟩).mapM
        orm.order = some [(name, true)] := by
      rw [setSorts_key hcomma hsortable]
      exact order_key hfield
    exact not_secretsHidden_of_orders hdoc horders ⟨(name, true), by simp, rfl⟩
      (Bool.eq_true_of_not_eq_false hsecret) hhidden
  defaults := by
    intro orders horders order horder
    by_contra hsecret
    have hdefault : (setSorts (parseModel std model) ⟨[], parseSorting "", 0, 0⟩).mapM
        orm.order = some orders := by
      rw [setSorts_empty]
      exact horders
    exact not_secretsHidden_of_orders hdoc hdefault ⟨order, horder, rfl⟩
      (Bool.eq_true_of_not_eq_false hsecret) hhidden
  filters := by
    intro hlistable name hname
    by_contra hsecret
    exact not_secretsHidden_of_filtersBy hdoc hlistable hname
      (Bool.eq_true_of_not_eq_false hsecret) hhidden

/-- **Secret columns and list queries.**  No list query tells tables apart that differ only in
secret fields, exactly if no key that the metadata lets through names such a field. -/
theorem secretsHidden_iff (hdoc : Documented std orm model) (hblind : FilterBysBlind model) :
    SecretsHidden std orm model ↔ NoSecretKey std orm model :=
  ⟨noSecretKey_of_secretsHidden hdoc, secretsHidden_of_noSecretKey hblind⟩

end Hidden

/-! ## Robots -/

private def asciiStd : Std where
  queryUnescape := some
  parseTime := fun _ => none
  isUpper := Char.isUpper
  isLower := Char.isLower
  toLower := Char.toLower
  isSpace := Char.isWhitespace

variable (fields : List Field)

/-- The mapper finds a field by its name, by its name in lower case or by its column. -/
private def getByAny (key : String) : Option String :=
  let lower := fun text : String => text.toList.map Char.toLower
  let field := (fields.find? (·.name = key)).or
    ((fields.find? fun field => lower field.name = lower key).or
      (fields.find? fun field => parseColumn asciiStd field = key))
  if key = "" then none else field.map (·.name)

/-- All cells hold texts. -/
private def textOrm : Orm fun _ => String where
  field := getByAny fields
  field_empty := by simp [getByAny]
  test := fun _ operator args cell => operator = .exact && args = [.text cell]
  le := fun _ cell other => cell ≤ other

/-- A model whose secret cannot be sorted by either. -/
private def sealed : Model fun _ => String where
  fields :=
    [{ name := "ID", ormTag := "pk;auto;column(id)" },
      { name := "Name", ormTag := "column(name)", sortTag := "default" },
      { name := "Secret", ormTag := "column(secret)", filterTag := "false", sortTag := "false" }]

variable {key : String}

private theorem textOrm_documented (model : Model fun _ => String) :
    Documented asciiStd (textOrm fields) model where
  escaped := fun text htext => ⟨text, htext, rfl⟩
  exact := fun _ _ => ⟨"a", "a", "b", ⟨by decide, 'a', [], rfl, by decide⟩, rfl, rfl⟩
  ordered := fun _ _ => ⟨"a", "b", by simp [textOrm], by simp [textOrm]⟩

private theorem length_le_snakeCaseFrom (prev : Option Char) (text : List Char) :
    text.length ≤ (snakeCaseFrom asciiStd prev text).length := by
  induction text generalizing prev with
  | nil => simp
  | cons c rest ih =>
    have hrest := ih (some c)
    simp only [snakeCaseFrom]
    split_ifs
    · simp only [length_cons]
      omega
    · simp only [length_cons]
      omega

private theorem sealed_lookup {found : Key fun _ => String}
    (hfound : (parseModel asciiStd sealed).keys.lookup key = some found)
    (hopen : found.filterable = true ∨ found.sortable = true) :
    key ∈ ["ID", "id", "Name", "name"] := by
  have hfields : ∀ field ∈ sealed.fields,
      parseFilterable field = true ∨ (parseSortable field).2 = true →
        field.name ∈ ["ID", "id", "Name", "name"] ∧
          parseColumn asciiStd field ∈ ["ID", "id", "Name", "name"] := by decide +kernel
  rcases mem_keys_of_lookup hfound with ⟨field, hfield, hkey, hfilter, hsort, -⟩ | ⟨_, hmethod, -⟩
  · rw [hfilter, hsort] at hopen
    rcases hkey with rfl | rfl
    · exact (hfields field hfield hopen).1
    · exact (hfields field hfield hopen).2
  · cases hmethod

private theorem sealed_secret {name : String} (hsecret : ¬ sealed.secret name = false) :
    name = "Secret" := by
  have hfields : ∀ field ∈ sealed.fields, parseFilterable field = false →
      field.name = "Secret" := by decide
  obtain ⟨field, hfield, htags⟩ := any_eq_true.mp (Bool.eq_true_of_not_eq_false hsecret)
  simp only [Bool.and_eq_true, decide_eq_true_eq, Bool.not_eq_true'] at htags
  rw [← htags.1.1]
  exact hfields field hfield htags.2

private theorem getByAny_secret (hfield : (textOrm sealed.fields).field key = some "Secret") :
    key.toList.map Char.toLower = "secret".toList := by
  have hfields : ∀ field ∈ sealed.fields, field.name = "Secret" →
      field.name.toList.map Char.toLower = "secret".toList ∧
        (parseColumn asciiStd field).toList.map Char.toLower = "secret".toList := by
    decide +kernel
  simp only [textOrm, getByAny] at hfield
  split_ifs at hfield
  obtain ⟨field, hfound, hname⟩ := Option.map_eq_some_iff.mp hfield
  rw [Option.or_eq_some_iff, Option.or_eq_some_iff] at hfound
  obtain hkey | ⟨-, hkey | ⟨-, hkey⟩⟩ := hfound <;>
    obtain ⟨hlower, hcolumn⟩ := hfields field (mem_of_find?_eq_some hkey) hname <;>
    have heq := find?_some hkey <;> rw [decide_eq_true_eq] at heq
  · exact heq ▸ hlower
  · exact heq ▸ hlower
  · exact heq ▸ hcolumn

/-- In the sealed model no key that is let through names the secret. -/
theorem secretsHidden_iff_sealed : SecretsHidden asciiStd (textOrm sealed.fields) sealed := by
  have hblind : FilterBysBlind sealed := by
    intro method hmethod
    cases hmethod
  have hopen : ∀ key ∈ ["ID", "id", "Name", "name"],
      key.toList.map Char.toLower ≠ "secret".toList ∧ key.toList.length ≤ 4 := by decide
  refine (secretsHidden_iff (textOrm_documented _ _) hblind).mpr ⟨?_, ?_, ?_⟩
  · rintro name ⟨key, -, hfield, hsortable⟩
    by_contra hsecret
    obtain rfl := sealed_secret hsecret
    cases hlookup : (parseModel asciiStd sealed).keys.lookup key with
    | none => simp [Metadata.sortable, hlookup] at hsortable
    | some found =>
      rw [Metadata.sortable, hlookup] at hsortable
      exact (hopen key (sealed_lookup hlookup (.inr hsortable))).1 (getByAny_secret hfield)
  · intro orders horders order horder
    have hname : sealed.defaultOrders asciiStd (textOrm sealed.fields) =
        some [("Name", false)] := by decide +kernel
    rw [hname] at horders
    cases horders
    obtain rfl := mem_singleton.mp horder
    decide
  · rintro - name ⟨key, -, hfield, accepted, haccepted, -⟩
    by_contra hsecret
    obtain rfl := sealed_secret hsecret
    have hlower := getByAny_secret hfield
    rw [Metadata.accepted] at haccepted
    cases hkey : (parseModel asciiStd sealed).filterable key with
    | some found =>
      obtain ⟨hlookup, hfilterable⟩ := Option.filter_eq_some_iff.mp hkey
      exact (hopen key (sealed_lookup hlookup (.inl hfilterable))).1 hlower
    | none =>
      -- the snake case of a key is not shorter than the key
      rw [hkey] at haccepted
      obtain ⟨hlookup, hfilterable⟩ := Option.filter_eq_some_iff.mp haccepted
      have hshort := (hopen _ (sealed_lookup hlookup (.inl hfilterable))).2
      rw [snakeCase, String.toList_ofList] at hshort
      have hlong := length_le_snakeCaseFrom none key.toList
      have hlength : key.toList.length = 6 := by
        have := congrArg length hlower
        simpa using this
      omega

private def robot : Model fun _ => String where
  fields :=
    [{ name := "ID", ormTag := "pk;auto;column(id)" },
      { name := "Name", ormTag := "column(name)", sortTag := "default" },
      { name := "Description", ormTag := "column(description)" },
      { name := "Secret", ormTag := "column(secret)", filterTag := "false" },
      { name := "Salt", ormTag := "column(salt)", filterTag := "false" },
      { name := "Duration", ormTag := "column(duration)" },
      { name := "ProjectID", ormTag := "column(project_id)" },
      { name := "ExpiresAt", ormTag := "column(expiresat)" },
      { name := "Disabled", ormTag := "column(disabled)" },
      { name := "Visible", ormTag := "column(visible)" },
      { name := "CreatorRef", ormTag := "column(creator_ref)" },
      { name := "CreatorType", ormTag := "column(creator_type)" },
      { name := "CreationTime", ormTag := "column(creation_time);auto_now_add" },
      { name := "UpdateTime", ormTag := "column(update_time);auto_now" }]

private def robotRow (pk : ℕ) (secret : String) : Row fun _ => String :=
  ⟨pk, fun name => if name = "Secret" then secret else ""⟩

/-- Two tables of robots that differ only in the secrets are listed in different orders when
they are sorted by the secret. -/
theorem sort_reveals_secret :
    List.Forall₂ (Row.Agrees robot.secret) [robotRow 1 "a", robotRow 2 "b"]
        [robotRow 1 "b", robotRow 2 "a"] ∧
      listed (textOrm robot.fields) asciiStd robot [robotRow 1 "a", robotRow 2 "b"] ""
        "secret" 0 0 = some [1, 2] ∧
      listed (textOrm robot.fields) asciiStd robot [robotRow 1 "b", robotRow 2 "a"] ""
        "secret" 0 0 = some [2, 1] := by
  have hagrees : ∀ pk secret other,
      (robotRow pk secret).Agrees robot.secret (robotRow pk other) := by
    intro pk secret other
    refine ⟨rfl, fun name hname => ?_⟩
    have hne : name ≠ "Secret" := by
      rintro rfl
      revert hname
      decide
    simp [robotRow, hne]
  refine ⟨.cons (hagrees 1 "a" "b") (.cons (hagrees 2 "b" "a") .nil), ?_, ?_⟩
  · decide +kernel
  · decide +kernel

end Harbor.Queries
