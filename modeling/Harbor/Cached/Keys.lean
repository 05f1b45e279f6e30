import Harbor.Data.Decimal
import Harbor.Data.Split

/-!
# Keys of the cache

A cached object is found under a text: the type of the resource, then names of fields and
their values, with colons between them.  The text tells the fields from each other as long as
no field but the last contains a colon.

Artifacts, repositories and projects are cached under two keys each: the number of the row
and the name that a user knows.
-/

namespace Harbor.Cached

open Data.Split

/-! ## Texts -/

/-- `ObjectKey.Format`; every caller passes names with their values. -/
def format (resource : String) (keysAndValues : List String) : String :=
  keysAndValues.foldl (fun text field => text ++ (":" ++ field)) resource

theorem format_append (resource : String) (first second : List String) :
    format resource (first ++ second) = format (format resource first) second :=
  List.foldl_append

theorem toList_format (resource : String) (fields : List String) :
    (format resource fields).toList =
      resource.toList ++ fields.flatMap fun field => ':' :: field.toList := by
  induction fields generalizing resource with
  | nil => exact (List.append_nil _).symm
  | cons field rest ih =>
    have hcolon : ":".toList = [':'] := rfl
    refine (ih _).trans ?_
    rw [String.toList_append, String.toList_append, hcolon, List.flatMap_cons,
      List.append_assoc, List.singleton_append]

/-- A first part without colons can be read off the text. -/
theorem format_cons_inj {resource resource' field field' : String} {rest rest' : List String}
    (h : format resource (field :: rest) = format resource' (field' :: rest'))
    (hresource : ':' ∉ resource.toList) (hresource' : ':' ∉ resource'.toList) :
    resource = resource' ∧ format field rest = format field' rest' := by
  have htext := congrArg (fun text : String => cut ':' text.toList) h
  simp only [toList_format, List.flatMap_cons, List.cons_append] at htext
  rw [cut_append hresource, cut_append hresource', Option.some.injEq, Prod.mk.injEq,
    ← toList_format, ← toList_format] at htext
  exact ⟨String.toList_inj.mp htext.1, String.toList_inj.mp htext.2⟩

theorem notMem_toString (n : ℕ) : ':' ∉ (toString n).toList := Data.Decimal.notMem_repr rfl n

theorem toString_inj {n m : ℕ} (h : toString n = toString m) : n = m := by
  have hdigits := congrArg (fun text : String => Data.Decimal.parseDigits text.toList) h
  exact Option.some.inj ((Data.Decimal.parseDigits_repr n).symm.trans
    (hdigits.trans (Data.Decimal.parseDigits_repr m)))

/-! ## Artifacts, repositories and projects -/

inductive Resource
  | artifact
  | repository
  | project
  deriving DecidableEq, Repr

def Resource.text : Resource → String
  | .artifact => "artifact"
  | .repository => "repository"
  | .project => "project"

theorem Resource.notMem_text (resource : Resource) : ':' ∉ resource.text.toList := by
  cases resource <;> decide

theorem Resource.text_injective : Function.Injective Resource.text := by
  intro first second h
  cases first <;> cases second <;> first | rfl | exact absurd h (by decide)

/-- The names of repositories have no colons. -/
def RepositoryName : Type :=
  { name : String // ':' ∉ name.toList }
  deriving DecidableEq, Repr

/-- What a user knows a row by. -/
inductive Name
  | digest (repository : RepositoryName) (digest : String)
  | repository (name : String)
  | project (name : String)
  deriving DecidableEq, Repr

def Name.resource : Name → Resource
  | .digest _ _ => .artifact
  | .repository _ => .repository
  | .project _ => .project

def Name.text : Name → String
  | .digest repo sha => format "artifact" ["repository", repo.val, "digest", sha]
  | .repository repo => format "repository" ["name", repo]
  | .project title => format "project" ["name", title]

inductive Key
  | id (resource : Resource) (number : ℕ)
  | name (name : Name)
  deriving DecidableEq, Repr

def Key.text : Key → String
  | .id resource number => format resource.text ["id", toString number]
  | .name known => known.text

theorem Name.text_injective : Function.Injective Name.text := by
  intro first second h
  cases first with
  | digest repository digest =>
    cases second with
    | digest repository' digest' =>
      obtain ⟨-, h⟩ := format_cons_inj h (by decide) (by decide)
      obtain ⟨-, h⟩ := format_cons_inj h (by decide) (by decide)
      obtain ⟨hrepository, h⟩ := format_cons_inj h repository.2 repository'.2
      obtain ⟨-, h⟩ := format_cons_inj h (by decide) (by decide)
      rw [Subtype.ext hrepository]
      exact congrArg _ h
    | _ => exact absurd (format_cons_inj h (by decide) (by decide)).1 (by decide)
  | repository name =>
    cases second with
    | repository name' =>
      obtain ⟨-, h⟩ := format_cons_inj h (by decide) (by decide)
      exact congrArg _ (format_cons_inj h (by decide) (by decide)).2
    | _ => exact absurd (format_cons_inj h (by decide) (by decide)).1 (by decide)
  | project name =>
    cases second with
    | project name' =>
      obtain ⟨-, h⟩ := format_cons_inj h (by decide) (by decide)
      exact congrArg _ (format_cons_inj h (by decide) (by decide)).2
    | _ => exact absurd (format_cons_inj h (by decide) (by decide)).1 (by decide)

theorem Key.text_id_ne (resource : Resource) (number : ℕ) (name : Name) :
    (Key.id resource number).text ≠ name.text := by
  intro h
  cases name <;>
    exact absurd (format_cons_inj (format_cons_inj h resource.notMem_text (by decide)).2
      (by decide) (by decide)).1 (by decide)

theorem Key.text_injective : Function.Injective Key.text := by
  intro first second h
  cases first with
  | id resource number =>
    cases second with
    | id resource' number' =>
      obtain ⟨hresource, h⟩ := format_cons_inj h resource.notMem_text resource'.notMem_text
      obtain ⟨-, h⟩ := format_cons_inj h (by decide) (by decide)
      rw [Resource.text_injective hresource, toString_inj h]
    | name name => exact absurd h (Key.text_id_ne resource number name)
  | name name =>
    cases second with
    | id resource number => exact absurd h.symm (Key.text_id_ne resource number name)
    | name name' => exact congrArg _ (Name.text_injective h)

end Harbor.Cached
