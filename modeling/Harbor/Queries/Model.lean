import Harbor.Data.Decimal
import Harbor.Data.Split
import Mathlib.Data.List.Sort
import Mathlib.Logic.Function.Basic

/-!
# List queries

`q.Build` turns the query and sort texts of a request into a `Query`, `parseModel` reads the
fields, tags and methods of a database model, and `QuerySetter` lets through what the model
accepts.  What it builds is a `QuerySet`; `Orm.list` is what the object-relational mapper and
the database make of it.

The mapper is not part of the repository.  It finds the field that a key names (`Orm.field`),
it splits a filter expression into a field and an operator, and it compares cells.  A key or
an operator that it does not know makes it panic, which is `none` here.  The models have no
relations to other models, so an expression of more than two pieces names no field.
-/

namespace Harbor.Queries

open Harbor.Data

/-! ## The texts of a request -/

/-- A value in a list or a range: a time, an integer or a text. -/
inductive Value
  | time (seconds : Int)
  | int (i : Int64)
  | text (s : String)
  | null
deriving DecidableEq

inductive Pattern
  | fuzzy (value : String)
  | range (min max : Option Value)
  | orList (values : List Value)
  | andList (values : List Value)
  | exact (value : String)
deriving DecidableEq

/-- `q.Sort`. -/
structure SortKey where
  key : String
  desc : Bool := false
deriving DecidableEq, Repr

structure Query where
  keywords : List (String × Pattern)
  sorts : List SortKey
  pageNumber : Int64
  pageSize : Int64

/-- What the standard library does: unescaping of a query, times, and the case of letters. -/
structure Std where
  queryUnescape : String → Option String
  parseTime : String → Option Int
  isUpper : Char → Bool
  isLower : Char → Bool
  toLower : Char → Char
  isSpace : Char → Bool

/-- The text without the characters at both ends that satisfy `p`. -/
def trim (p : Char → Bool) (text : List Char) : List Char :=
  ((text.dropWhile p).reverse.dropWhile p).reverse

section Parsing

variable (std : Std)

/-- A time, then an integer, then a text. -/
def parseValue (text : List Char) : Value :=
  let value := trim std.isSpace text
  match std.parseTime (String.ofList value) with
  | some time => .time time
  | none =>
    match Decimal.parseInt (String.ofList value) with
    | some i => .int i
    | none => .text (String.ofList (trim (fun c => c = '"' || c = '\'') value))

variable (value : List Char)

def parseFuzzyMatchValue : Except String Pattern :=
  if value.length < 2 ∨ value.head? ≠ some '~' then
    .error "fuzzy match value must start with \"~\" and contain at least 1 other characters"
  else .ok (.fuzzy (String.ofList value.tail))

def parseRange : Except String Pattern :=
  if value.getLast? ≠ some ']' ∨ value.count '~' ≠ 1 then
    .error "range must start with \"[\", end with \"]\" and contains only one \"~\""
  else
    match Split.cut '~' (value.tail.dropLast) with
    | none => .error "range must start with \"[\", end with \"]\" and contains only one \"~\""
    | some (low, high) =>
      let minVal := trim std.isSpace low
      let maxVal := trim std.isSpace high
      if minVal = [] ∧ maxVal = [] then
        .error "min and max at least one should be set in range'"
      else
        .ok (.range (if minVal = [] then none else some (parseValue std minVal))
          (if maxVal = [] then none else some (parseValue std maxVal)))

/-- The values between the brackets, without the empty ones. -/
def parseList (close : Char) (message : String) : Except String (List Value) :=
  if value.getLast? ≠ some close then .error message
  else
    .ok (((value.tail.dropLast.splitOn ' ').map (parseValue std)).filter fun v => v ≠ .text "")

def parsePattern (value : String) : Except String Pattern :=
  match value.toList with
  | [] => .ok (.exact value)
  | '~' :: rest => parseFuzzyMatchValue ('~' :: rest)
  | '[' :: rest => parseRange std ('[' :: rest)
  | '\x7b' :: rest =>
    (parseList std ('\x7b' :: rest) '\x7d'
      "or list must start with \"\x7b\" and end with \"\x7d\"").map .orList
  | '(' :: rest =>
    (parseList std ('(' :: rest) ')'
      "and list must start with \"(\" and end with \")\"").map .andList
  -- a backslash escapes the character behind it
  | '\\' :: rest => .ok (.exact (String.ofList rest))
  | _ => .ok (.exact value)

/-- Store the value under the key, in place of the one that is there. -/
def setKeyword (keywords : List (String × Pattern)) (key : String) (value : Pattern) :
    List (String × Pattern) :=
  keywords.filter (·.1 ≠ key) ++ [(key, value)]

def parseKeyword (param : String) : Except String (String × Pattern) :=
  let message := "the query string must contain \"=\" and the key/value cannot be empty"
  match Split.cut '=' param.toList with
  | none => .error message
  | some (key, value) =>
    if key = [] ∨ value = [] then .error message
    else
      match parsePattern std (String.ofList value) with
      | .error _ => .error ("invalid query string value: " ++ String.ofList value)
      | .ok pattern => .ok (String.ofList key, pattern)

/-- `parseKeywords`.  A query that cannot be unescaped is taken as it is. -/
def parseKeywords (q : String) : Except String (List (String × Pattern)) :=
  if q = "" then .ok []
  else
    (Split.split ((std.queryUnescape q).getD q) ',').foldlM (fun keywords param => do
      let (key, value) ← parseKeyword std param
      return setKeyword keywords key value) []

/-- One key of a sort text; a leading hyphen asks for the descending order. -/
def parseSort (sorting : String) : SortKey :=
  match sorting.toList with
  | '-' :: after => ⟨String.ofList after, true⟩
  | _ => ⟨sorting, false⟩

def parseSorting (sort : String) : List SortKey :=
  if sort = "" then [] else (Split.split sort ',').map parseSort

def build (q sort : String) (pageNumber pageSize : Int64) : Except String Query := do
  let keywords ← parseKeywords std q
  return ⟨keywords, parseSorting sort, pageNumber, pageSize⟩

end Parsing

/-! ## Rows -/

/-- A row of the table of a model: the primary key, and a cell for every field. -/
structure Row (Cell : String → Type) where
  pk : ℕ
  cells : (name : String) → Cell name

/-! ## The metadata of a model -/

/-- A field of the struct, with its tags. -/
structure Field where
  name : String
  ormTag : String := ""
  filterTag : String := ""
  sortTag : String := ""
deriving DecidableEq, Repr

/-- A `FilterBy` method, and the rows it keeps for a key and its value. -/
structure FilterBy (Cell : String → Type) where
  field : String
  keeps : String → Pattern → Row Cell → Bool

structure Model (Cell : String → Type) where
  fields : List Field
  filterBys : List (FilterBy Cell) := []
  getDefaultSorts : Option (List SortKey) := none

structure Key (Cell : String → Type) where
  filterable : Bool
  filterFunc : Option (String → Pattern → Row Cell → Bool) := none
  sortable : Bool := false

structure Metadata (Cell : String → Type) where
  keys : List (String × Key Cell)
  defaultSorts : List SortKey

section Metadata

variable (std : Std) {Cell : String → Type}

/-- The characters of a text in snake case, given the character before them. -/
def snakeCaseFrom : Option Char → List Char → List Char
  | _, [] => []
  | prev, c :: rest =>
    let delim := match prev with
      | none => false
      | some before => std.isUpper c && (rest.head?.any std.isLower || std.isLower before)
    if delim then '_' :: std.toLower c :: snakeCaseFrom (some c) rest
    else std.toLower c :: snakeCaseFrom (some c) rest

def snakeCase (text : String) : String :=
  String.ofList (snakeCaseFrom std none text.toList)

def parseFilterable (field : Field) : Bool :=
  field.filterTag ≠ "false"

/-- Whether the field can be sorted by, and the default sort if it is one. -/
def parseSortable (field : Field) : Option SortKey × Bool :=
  if "false" ∈ Split.split field.sortTag ';' then (none, false)
  else
    let defaults := (Split.split field.sortTag ';').filter fun item =>
      "default".toList.isPrefixOf item.toList
    (defaults.getLast?.map fun item => ⟨field.name, item = "default:desc"⟩, true)

/-- The text without the given beginning, if it begins so. -/
def trimBeginning (start text : List Char) : List Char :=
  if start.isPrefixOf text then text.drop start.length else text

def parseColumn (field : Field) : String :=
  let items := Split.split field.ormTag ';'
  let column := match items.find? fun item => "column".toList.isPrefixOf item.toList with
    | none => []
    | some item =>
      let inner := trimBeginning "column(".toList item.toList
      if inner.getLast? = some ')' then inner.dropLast else inner
  if column = [] then snakeCase std field.name else String.ofList column

/-- `parseModel`.  A later entry replaces an earlier one of the same key, so they are looked
up from the end. -/
def parseModel (model : Model Cell) : Metadata Cell :=
  let fields := model.fields.filter (·.ormTag ≠ "-")
  let fieldKeys := fields.flatMap fun field =>
    let key : Key Cell := ⟨parseFilterable field, none, (parseSortable field).2⟩
    [(field.name, key), (parseColumn std field, key)]
  let methodKeys := model.filterBys.flatMap fun method =>
    let key : Key Cell := ⟨true, some method.keeps, false⟩
    [(method.field, key), (snakeCase std method.field, key)]
  let tagged := (fields.filterMap fun field => (parseSortable field).1).getLast?.toList
  let defaultSorts := match model.getDefaultSorts with
    | some (sort :: rest) => sort :: rest
    | _ => tagged
  ⟨(fieldKeys ++ methodKeys).reverse, defaultSorts⟩

/-- The key is known and filterable. -/
def Metadata.filterable (metadata : Metadata Cell) (key : String) : Option (Key Cell) :=
  (metadata.keys.lookup key).filter (·.filterable)

def Metadata.sortable (metadata : Metadata Cell) (key : String) : Bool :=
  (metadata.keys.lookup key).any (·.sortable)

/-- The fields that must not be filtered by. -/
def Model.secret (model : Model Cell) (name : String) : Bool :=
  model.fields.any fun field => field.name = name && field.ormTag ≠ "-" && !parseFilterable field

end Metadata

/-! ## Building the query set -/

/-- The pieces of a key between its expression separators, which are two underscores. -/
def pieces (text : String) : List String :=
  (Split.splitDouble '_' text.toList).map String.ofList

inductive Operator
  | icontains | «in» | gte | lte | gt | lt | exact
deriving DecidableEq, Repr

/-- The operators that are accepted. -/
def Operator.ofText : String → Option Operator
  | "icontains" => some .icontains
  | "in" => some .«in»
  | "gte" => some .gte
  | "lte" => some .lte
  | "gt" => some .gt
  | "lt" => some .lt
  | "exact" => some .exact
  | _ => none

/-- A call of `Filter`, or what a `FilterBy` method keeps. -/
inductive Filter (Cell : String → Type)
  | expr (text : String) (args : List Value)
  | method (keeps : Row Cell → Bool)

structure QuerySet (Cell : String → Type) where
  filters : List (Filter Cell)
  orders : List String
  limit : Option Int64 := none
  offset : Int64 := 0

/-- `Escape` of a text for the like operator. -/
def escape (text : String) : String :=
  String.ofList (text.toList.flatMap fun c =>
    if c = '\\' ∨ c = '%' ∨ c = '_' then ['\\', c] else [c])

section QuerySetter

variable (std : Std) {Cell : String → Type} (metadata : Metadata Cell)

/-- The metadata under which a key is accepted: its own, or that of its snake case. -/
def Metadata.accepted (fieldKey : String) : Option (Key Cell) :=
  match metadata.filterable fieldKey with
  | some key => some key
  | none => metadata.filterable (snakeCase std fieldKey)

/-- The filters for a value, without a filter function. -/
def filtersOf (key : String) : Pattern → List (Filter Cell)
  | .fuzzy value => [.expr (key ++ "__icontains") [.text (escape value)]]
  | .range min max =>
    (min.map fun value => .expr (key ++ "__gte") [value]).toList ++
      (max.map fun value => .expr (key ++ "__lte") [value]).toList
  | .orList [] => [.expr (key ++ "__in") [.null]]
  | .orList values => [.expr (key ++ "__in") values]
  -- an and list needs to be handled by the data access object
  | .andList _ => []
  | .exact value => [.expr key [.text value]]

/-- One round of the loop over the keywords. -/
def setFilter (key : String) (value : Pattern) : List (Filter Cell) :=
  match pieces key with
  | fieldKey :: operator =>
    if 1 < operator.length then []
    else
      match metadata.accepted std fieldKey with
      | none => []
      | some accepted =>
        if operator.any fun text => (Operator.ofText text).isNone then []
        else
          match accepted.filterFunc with
          | some keeps => [.method (keeps key value)]
          | none => filtersOf key value
  | [] => []

def setFilters (query : Query) : List (Filter Cell) :=
  query.keywords.flatMap fun (key, value) => setFilter std metadata key value

/-- A sort as it is passed to `OrderBy`. -/
def SortKey.text (sort : SortKey) : String :=
  if sort.desc then "-" ++ sort.key else sort.key

def setSorts (query : Query) : List String :=
  let sortings := (query.sorts.filter fun sort => metadata.sortable sort.key).map SortKey.text
  if sortings = [] then metadata.defaultSorts.map SortKey.text else sortings

def querySetter (model : Model Cell) (query : Query) : QuerySet Cell :=
  let metadata := parseModel std model
  { filters := setFilters std metadata query
    orders := setSorts metadata query
    limit := if 0 < query.pageSize then some query.pageSize else none
    offset := if 0 < query.pageSize ∧ 0 < query.pageNumber
      then query.pageSize * (query.pageNumber - 1) else 0 }

end QuerySetter

/-! ## Running the query set -/

/-- The object-relational mapper and the database: the field that a key names, and how the
cells of a field are tested and compared. -/
structure Orm (Cell : String → Type) where
  field : String → Option String
  field_empty : field "" = none
  test : (name : String) → Operator → List Value → Cell name → Bool
  le : (name : String) → Cell name → Cell name → Bool

section Running

variable {Cell : String → Type} (orm : Orm Cell)

/-- The field and the operator of a filter expression. -/
def Orm.parse (expr : String) : Option (String × Operator) :=
  match pieces expr with
  | [key] => (orm.field key).map fun name => (name, .exact)
  | [key, text] => do
    let name ← orm.field key
    let operator ← Operator.ofText text
    return (name, operator)
  | _ => none

def Orm.keeps : Filter Cell → Option (Row Cell → Bool)
  | .expr text args =>
    (orm.parse text).map fun (name, operator) row => orm.test name operator args (row.cells name)
  | .method keeps => some keeps

/-- The field of an order expression, and whether it descends. -/
def Orm.order (text : String) : Option (String × Bool) :=
  let sort := parseSort text
  (orm.field sort.key).map fun name => (name, sort.desc)

/-- The rows in the order of the fields; ties are broken by the primary key. -/
def Orm.before : List (String × Bool) → Row Cell → Row Cell → Bool
  | [], row, other => row.pk ≤ other.pk
  | (name, desc) :: rest, row, other =>
    let le := orm.le name (row.cells name) (other.cells name)
    let ge := orm.le name (other.cells name) (row.cells name)
    if le = ge then Orm.before rest row other else if desc then ge else le

/-- The rows that all tests keep, in the order of the fields. -/
def Orm.sorted (keeps : List (Row Cell → Bool)) (orders : List (String × Bool))
    (table : List (Row Cell)) : List (Row Cell) :=
  (table.filter fun row => keeps.all fun keep => keep row).insertionSort
    fun row other => orm.before orders row other = true

/-- The rows between the offset and the limit.  The mapper leaves out an offset that is not
positive. -/
def QuerySet.page {α : Type*} (qs : QuerySet Cell) (rows : List α) : List α :=
  match qs.limit with
  | none => rows.drop qs.offset.toNatClampNeg
  | some limit => (rows.drop qs.offset.toNatClampNeg).take limit.toNatClampNeg

/-- The primary keys of the rows on the page. -/
def Orm.list (qs : QuerySet Cell) (table : List (Row Cell)) : Option (List ℕ) := do
  let keeps ← qs.filters.mapM orm.keeps
  let orders ← qs.orders.mapM orm.order
  return (qs.page (orm.sorted keeps orders table)).map Row.pk

/-- What a client gets for the query and sort texts and the page; `none` if the request is
refused or the mapper panics. -/
def listed (std : Std) (model : Model Cell) (table : List (Row Cell)) (q sort : String)
    (pageNumber pageSize : Int64) : Option (List ℕ) :=
  match build std q sort pageNumber pageSize with
  | .error _ => none
  | .ok query => orm.list (querySetter std model query) table

end Running

end Harbor.Queries
