import Mathlib.Data.List.AList
import Mathlib.Data.List.Nodup
import Mathlib.Data.List.Perm.Subperm

/-!
# Loops over finite maps

A loop that fills a map from the entries of another one is a fold of `insert`
over `AList.entries`.  The order in which the entries come does not matter for
the result, because keys occur only once; the lemmas below say what such a loop
leaves under each key, which is all that is ever needed about it.
-/

namespace Harbor.Data

open List

variable {α β : Type*} [DecidableEq α] {entries : List (Sigma fun _ : α => β)}
  {first second : AList fun _ : α => β} (f : α → β → β)

/-- A loop whose rounds change the value of their own key only, to `g key value old`. -/
private theorem lookup_foldl_entries {step : (AList fun _ : α => β) → (Sigma fun _ : α => β) →
      AList fun _ : α => β} {g : α → β → Option β → Option β}
    (hown : ∀ map key value, (step map ⟨key, value⟩).lookup key = g key value (map.lookup key))
    (hother : ∀ map entry key, key ≠ entry.1 → (step map entry).lookup key = map.lookup key)
    (hnodup : entries.NodupKeys) (init : AList fun _ : α => β) (key : α) :
    (entries.foldl step init).lookup key =
      match entries.dlookup key with
      | some value => g key value (init.lookup key)
      | none => init.lookup key := by
  induction entries generalizing init with
  | nil => rfl
  | cons entry rest ih =>
    obtain ⟨first, value⟩ := entry
    rw [foldl_cons, ih (nodupKeys_cons.mp hnodup).2]
    by_cases hkey : key = first
    · subst hkey
      have habsent : rest.dlookup key = none := dlookup_eq_none.mpr (nodupKeys_cons.mp hnodup).1
      simp [habsent, hown]
    · rw [dlookup_cons_ne rest _ hkey, hother _ _ _ hkey]

/-- A loop that stores `f key value` for every entry of `source`. -/
theorem lookup_foldl_insert (source init : AList fun _ : α => β) (key : α) :
    (source.entries.foldl (fun map entry =>
        map.insert entry.1 (f entry.1 entry.2)) init).lookup key =
      match source.lookup key with
      | some value => some (f key value)
      | none => init.lookup key := by
  refine lookup_foldl_entries (g := fun key value _ => some (f key value)) ?_ ?_
    source.nodupKeys init key
  · exact fun _ _ _ => AList.lookup_insert _
  · exact fun _ _ _ hkey => AList.lookup_insert_ne hkey

/-- A loop that stores `f key value` for the keys of `source` that are not there yet. -/
theorem lookup_foldl_insert_absent (source init : AList fun _ : α => β) (key : α) :
    (source.entries.foldl (fun map entry =>
        if entry.1 ∈ map then map else map.insert entry.1 (f entry.1 entry.2)) init).lookup key =
      (init.lookup key).or ((source.lookup key).map (f key)) := by
  rw [lookup_foldl_entries (g := fun key value old => old.or (some (f key value))) ?_ ?_
    source.nodupKeys init key]
  · show (match source.lookup key with | some _ => _ | none => _) = _
    cases source.lookup key <;> simp
  · intro map key value
    split_ifs with hmem
    · obtain ⟨stored, hstored⟩ := Option.isSome_iff_exists.mp (AList.lookup_isSome.mpr hmem)
      simp [hstored]
    · simp [AList.lookup_eq_none.mpr hmem]
  · intro map entry key hkey
    split_ifs
    · rfl
    · exact AList.lookup_insert_ne hkey

/-- Two maps of the same size are equal as soon as one extends the other. -/
theorem lookup_eq_of_length_eq (hlength : first.entries.length = second.entries.length)
    (hsub : ∀ key value, first.lookup key = some value → second.lookup key = some value) (key : α) :
    first.lookup key = second.lookup key := by
  cases hfirst : first.lookup key with
  | some value => exact (hsub key value hfirst).symm
  | none =>
    -- the keys of `first` are among those of `second` and as many
    have hsubset : first.keys ⊆ second.keys := by
      intro other hother
      obtain ⟨value, hvalue⟩ :=
        Option.isSome_iff_exists.mp (AList.lookup_isSome.mpr (AList.mem_keys.mpr hother))
      exact AList.mem_keys.mp (AList.lookup_isSome.mp
        (Option.isSome_iff_exists.mpr ⟨value, hsub other value hvalue⟩))
    have hkeys : first.keys.length = second.keys.length := by
      simpa [AList.keys, keys] using hlength
    have hperm : first.keys.Perm second.keys :=
      (subperm_of_subset first.keys_nodup hsubset).perm_of_length_le (Nat.le_of_eq hkeys.symm)
    have habsent : key ∉ second := fun hmem =>
      AList.lookup_eq_none.mp hfirst
        (AList.mem_keys.mpr (hperm.mem_iff.mpr (AList.mem_keys.mp hmem)))
    exact (AList.lookup_eq_none.mpr habsent).symm

theorem length_eq_of_lookup_eq (hlookup : ∀ key, first.lookup key = second.lookup key) :
    first.entries.length = second.entries.length := by
  have hmem : ∀ key, key ∈ first.keys ↔ key ∈ second.keys := fun key => by
    rw [← AList.mem_keys, ← AList.mem_keys, ← AList.lookup_isSome, ← AList.lookup_isSome, hlookup]
  have hperm : first.keys.Perm second.keys :=
    (perm_ext_iff_of_nodup first.keys_nodup second.keys_nodup).mpr hmem
  simpa [AList.keys, keys] using hperm.length_eq

end Harbor.Data
