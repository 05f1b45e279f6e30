import Harbor.Queries.Model

/-!
# Texts in SQL

`QuoteLiteral` and `Escape` of `lib/orm` by successive replacements, and what PostgreSQL
reads: a literal, and a pattern of the like operator.
-/

namespace Harbor.Queries.Literals

open List

/-- `strings.Replace` of every occurrence of a character. -/
def replace (old : Char) (new text : List Char) : List Char :=
  text.flatMap fun c => if c = old then new else [c]

def escape (str : List Char) : List Char :=
  replace '_' ['\\', '_'] (replace '%' ['\\', '%'] (replace '\\' ['\\', '\\'] str))

variable (text : List Char)

def quoteLiteral : List Char :=
  let literal := replace '\'' ['\'', '\''] text
  if '\\' ∈ literal then
    ' ' :: 'E' :: '\'' :: (replace '\\' ['\\', '\\'] literal ++ ['\''])
  else '\'' :: (literal ++ ['\''])

/-- The value of a literal behind its opening quote, and the text that follows. -/
def lexBody (backslash : Bool) : List Char → Option (List Char × List Char)
  | '\'' :: '\'' :: rest => (lexBody backslash rest).map (Prod.map ('\'' :: ·) id)
  | '\'' :: rest => some ([], rest)
  | c :: d :: rest =>
    if backslash ∧ c = '\\' then (lexBody backslash rest).map (Prod.map (d :: ·) id)
    else (lexBody backslash (d :: rest)).map (Prod.map (c :: ·) id)
  | _ => none

/-- A plain literal or an E literal, behind blanks. -/
def lexLiteral : List Char → Option (List Char × List Char)
  | ' ' :: rest => lexLiteral rest
  | '\'' :: rest => lexBody false rest
  | 'E' :: '\'' :: rest => lexBody true rest
  | _ => none

/-- The like operator; PostgreSQL refuses a pattern that ends with the escape character. -/
def like : List Char → List Char → Bool
  | [], text => text.isEmpty
  | '%' :: pattern, text => text.tails.any (like pattern)
  | '_' :: pattern, _ :: text => like pattern text
  | '\\' :: c :: pattern, d :: text => c = d && like pattern text
  | ['\\'], _ => false
  | c :: pattern, d :: text => c = d && like pattern text
  | _ :: _, [] => false

/-! ## Literals -/

/-- What the replacements of `quoteLiteral` make of a character. -/
def quoted (backslash : Bool) (c : Char) : List Char :=
  if c = '\'' ∨ backslash ∧ c = '\\' then [c, c] else [c]

theorem lexBody_quoted (backslash : Bool) (text : List Char) :
    lexBody backslash (text.flatMap (quoted backslash) ++ ['\'']) = some (text, []) := by
  induction text with
  | nil => rfl
  | cons c text ih =>
    rw [flatMap_cons, append_assoc]
    obtain ⟨d, rest, hrest⟩ := exists_cons_of_ne_nil
      (append_ne_nil_of_right_ne_nil (text.flatMap (quoted backslash)) (by simp : ['\''] ≠ []))
    rw [hrest] at ih ⊢
    by_cases hquote : c = '\''
    · subst hquote
      simp [quoted, lexBody, ih]
    · by_cases hbackslash : backslash ∧ c = '\\'
      · obtain ⟨rfl, rfl⟩ := hbackslash
        simp [quoted, lexBody, ih]
      · simp [quoted, lexBody, hquote, hbackslash, ih]

theorem replace_quote : replace '\'' ['\'', '\''] text = text.flatMap (quoted false) := by
  simp only [replace]
  congr! 2 with c
  grind [quoted]

theorem replace_backslash :
    replace '\\' ['\\', '\\'] (replace '\'' ['\'', '\''] text) =
      text.flatMap (quoted true) := by
  simp only [replace, flatMap_assoc]
  congr! 2 with c
  by_cases hquote : c = '\''
  · simp [quoted, hquote]
  · by_cases hbackslash : c = '\\' <;> simp [quoted, hquote, hbackslash]

theorem lexLiteral_quoteLiteral : lexLiteral (quoteLiteral text) = some (text, []) := by
  simp only [quoteLiteral]
  split_ifs
  · rw [replace_backslash]
    exact lexBody_quoted true text
  · rw [replace_quote]
    exact lexBody_quoted false text

/-! ## Patterns -/

theorem escape_eq (str : List Char) :
    escape str = str.flatMap fun c =>
      if c = '\\' ∨ c = '%' ∨ c = '_' then ['\\', c] else [c] := by
  simp only [escape, replace, flatMap_assoc]
  congr! 2 with c
  by_cases hbackslash : c = '\\'
  · simp [hbackslash]
  · by_cases hpercent : c = '%'
    · simp [hpercent]
    · by_cases hunderscore : c = '_' <;> simp [hbackslash, hpercent, hunderscore]

theorem like_escape (str pattern text : List Char) :
    like (escape str ++ pattern) text ↔ ∃ rest, text = str ++ rest ∧ like pattern rest := by
  rw [escape_eq]
  induction str generalizing text with
  | nil => simp
  | cons c str ih =>
    rw [flatMap_cons, append_assoc]
    cases text with
    | nil => split_ifs <;> simp_all [like]
    | cons d text =>
      split_ifs with hc
      · simp only [cons_append, nil_append, like, Bool.and_eq_true, decide_eq_true_eq, ih]
        grind
      · have hstep : ∀ pattern, like (c :: pattern) (d :: text) = (c = d && like pattern text) := by
          simp_all [like]
        simp only [cons_append, nil_append, hstep, Bool.and_eq_true, decide_eq_true_eq, ih]
        grind

/-- **Escaping.**  PostgreSQL reads a quoted text as the text itself, and an escaped text between
`%` matches the texts that contain it.  `QuerySetter` escapes in the same way. -/
theorem escaping_exact (s t : String) :
    lexLiteral (quoteLiteral s.toList) = some (s.toList, []) ∧
    (like ('%' :: (escape s.toList ++ ['%'])) t.toList ↔ s.toList <:+: t.toList) ∧
    String.ofList (escape s.toList) = Queries.escape s := by
  refine ⟨lexLiteral_quoteLiteral _, ?_, by rw [escape_eq]; rfl⟩
  simp only [like, any_eq_true, mem_tails, like_escape]
  constructor
  · rintro ⟨_, ⟨before, hsuffix⟩, rest, rfl, -⟩
    exact ⟨before, rest, by rw [← hsuffix, append_assoc]⟩
  · rintro ⟨before, rest, heq⟩
    refine ⟨s.toList ++ rest, ⟨before, by rw [← heq, append_assoc]⟩, rest, rfl, ?_⟩
    exact ⟨[], rest.nil_suffix, rfl⟩

end Harbor.Queries.Literals
