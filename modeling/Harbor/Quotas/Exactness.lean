import Harbor.Quotas.DatabaseRuns

/-!
# The check of a reservation

A reservation should be granted exactly if every resource has a limit and the usage and the
request together stay within it, and should never make a usage smaller.  The check adds 64-bit
integers.  A sum that does not fit comes out negative, so it passes every limit that is not
negative itself, and the usage becomes negative.

The check is therefore exact as long as nothing overflows.  If something does, it is still right
when the reservation is refused for another reason.
-/

namespace Harbor.Quotas

open Quotas.Types

variable (used resources : ResourceList)

/-- The resource is listed in the usage or in the request. -/
def Listed (resource : ResourceName) : Prop :=
  resource ∈ used ∨ resource ∈ resources

/-- The usage and the request together, as integers. -/
def total (resource : ResourceName) : ℤ :=
  (amount used resource).toInt + (amount resources resource).toInt

variable (hardLimits used resources : ResourceList)

/-- What a reservation is meant to check. -/
def Fits : Prop :=
  ∀ resource, Listed used resources resource → ∃ limit, hardLimits.lookup resource = some limit ∧
    (limit ≠ unlimited → total used resources resource ≤ limit.toInt)

/-- The reservation is granted exactly if it fits, and then no usage gets smaller. -/
def ReservesExactly : Prop :=
  ((∃ newUsed, reserveResources resources hardLimits used = .ok newUsed) ↔
      Fits hardLimits used resources) ∧
    ∀ newUsed, reserveResources resources hardLimits used = .ok newUsed →
      ∀ resource, amount used resource ≤ amount newUsed resource

/-- The sum as it is compared with the limit, for amounts that are not negative. -/
def wrappedTotal (resource : ResourceName) : ℤ :=
  if 2 ^ 63 ≤ total used resources resource then total used resources resource - 2 ^ 64
  else total used resources resource

/-- The resource has no limit, or its sum exceeds the limit even if it overflows. -/
def RefusedAnyway (resource : ResourceName) : Prop :=
  Listed used resources resource ∧ ∀ limit, hardLimits.lookup resource = some limit →
    limit ≠ unlimited ∧ limit.toInt < wrappedTotal used resources resource

section Check

variable {hardLimits used resources newUsed : ResourceList} {resource : ResourceName}

theorem isSafe_eq_nil_iff : isSafe hardLimits used newUsed false = [] ↔
    ∀ resource value, newUsed.lookup resource = some value →
      ∃ limit, hardLimits.lookup resource = some limit ∧
        (limit ≠ unlimited → value ≤ limit) := by
  unfold isSafe
  rw [List.filterMap_eq_nil_iff]
  constructor
  · intro hsafe resource value hvalue
    have hentry := hsafe ⟨resource, value⟩ (mem_entries_iff.mpr hvalue)
    cases hlimit : hardLimits.lookup resource with
    | none => simp [hlimit] at hentry
    | some limit =>
      refine ⟨limit, rfl, fun hlimited => ?_⟩
      simp only [hlimit, hlimited, if_false, Bool.not_false, and_true, ite_eq_right_iff,
        reduceCtorEq, imp_false] at hentry
      exact Int64.not_lt.mp hentry
  · rintro hlimits ⟨resource, value⟩ hentry
    obtain ⟨limit, hlimit, hwithin⟩ := hlimits resource value (mem_entries_iff.mp hentry)
    by_cases hlimited : limit = unlimited
    · simp [hlimit, hlimited]
    · simp [hlimit, hlimited, Int64.not_lt.mpr (hwithin hlimited)]

theorem reserveResources_eq_ok_iff :
    reserveResources resources hardLimits used = .ok newUsed ↔
      newUsed = Types.add used resources ∧ isSafe hardLimits used newUsed false = [] := by
  unfold reserveResources
  cases hsafe : isSafe hardLimits used (add used resources) false with
  | nil =>
    simp only [hsafe, Except.ok.injEq]
    constructor
    · rintro rfl
      exact ⟨rfl, hsafe⟩
    · exact fun h => h.1.symm
  | cons error rest =>
    simp only [hsafe, reduceCtorEq, false_iff, not_and]
    rintro rfl
    simp [hsafe]

theorem lookup_add_eq_some_iff {value : Int64} :
    (Types.add used resources).lookup resource = some value ↔
      Listed used resources resource ∧
        value = amount used resource + amount resources resource := by
  rw [lookup_add]
  unfold Listed amount
  rw [← AList.lookup_isSome, ← AList.lookup_isSome]
  cases used.lookup resource with
  | none =>
    cases resources.lookup resource with
    | none => simp
    | some other => simp [eq_comm]
  | some old =>
    cases resources.lookup resource with
    | none | some other => simp [eq_comm]

/-- The reservation is granted if the sums, as they come out, are within the limits. -/
theorem reserveResources_isOk_iff :
    (∃ newUsed, reserveResources resources hardLimits used = .ok newUsed) ↔
      ∀ resource, Listed used resources resource → ∃ limit,
        hardLimits.lookup resource = some limit ∧ (limit ≠ unlimited →
          amount used resource + amount resources resource ≤ limit) := by
  simp only [reserveResources_eq_ok_iff, exists_eq_left, isSafe_eq_nil_iff, lookup_add_eq_some_iff]
  constructor
  · exact fun h resource hlisted => h resource _ ⟨hlisted, rfl⟩
  · rintro h resource value ⟨hlisted, rfl⟩
    exact h resource hlisted

theorem NonNegative.toInt_amount (h : NonNegative resources) (resource : ResourceName) :
    0 ≤ (amount resources resource).toInt := by
  unfold amount
  cases hvalue : resources.lookup resource with
  | none => exact le_refl 0
  | some value => exact Int64.le_iff_toInt_le.mp (h resource value hvalue)

theorem toInt_amount_add (hused : NonNegative used) (hresources : NonNegative resources) :
    (amount used resource + amount resources resource).toInt =
      wrappedTotal used resources resource := by
  have hfirst := hused.toInt_amount resource
  have hsecond := hresources.toInt_amount resource
  have hfirstMax := (amount used resource).toInt_lt
  have hsecondMax := (amount resources resource).toInt_lt
  rw [Int64.toInt_add]
  unfold wrappedTotal total
  split_ifs with hoverflow
  · rw [← Int.sub_bmod_right]
    exact Int.bmod_eq_of_le (by norm_num; omega) (by norm_num; omega)
  · exact Int.bmod_eq_of_le (by norm_num; omega) (by norm_num; omega)

theorem wrappedTotal_le_total : wrappedTotal used resources resource ≤
    total used resources resource := by
  unfold wrappedTotal
  split_ifs <;> omega

end Check

/-- The check is exact if and only if no sum overflows, or the reservation is refused
anyway. -/
theorem reserves_exactly_iff (hardLimits used resources : ResourceList) (hused : NonNegative used)
    (hresources : NonNegative resources) :
    ReservesExactly hardLimits used resources ↔
      (∀ resource, total used resources resource < 2 ^ 63) ∨
        ∃ resource, RefusedAnyway hardLimits used resources resource := by
  have hsum : ∀ resource,
      (amount used resource + amount resources resource).toInt =
        wrappedTotal used resources resource := fun _ => toInt_amount_add hused hresources
  have hgranted : (∃ newUsed, reserveResources resources hardLimits used = .ok newUsed) ↔
      ∀ resource, Listed used resources resource → ∃ limit,
        hardLimits.lookup resource = some limit ∧ (limit ≠ unlimited →
          wrappedTotal used resources resource ≤ limit.toInt) := by
    simp only [reserveResources_isOk_iff, Int64.le_iff_toInt_le, hsum]
  have hnew : ∀ newUsed, reserveResources resources hardLimits used = .ok newUsed →
      ∀ resource, (amount newUsed resource).toInt =
        wrappedTotal used resources resource := by
    intro newUsed hok resource
    rw [(reserveResources_eq_ok_iff.mp hok).1, amount_add, hsum]
  constructor
  · rintro ⟨-, hgrows⟩
    by_contra hneither
    obtain ⟨hoverflow, hrefused⟩ := not_or.mp hneither
    push Not at hoverflow hrefused
    obtain ⟨resource, hoverflow⟩ := hoverflow
    have hok : ∃ newUsed, reserveResources resources hardLimits used = .ok newUsed := by
      refine hgranted.mpr fun other hlisted => ?_
      by_contra! hnone
      exact hrefused other ⟨hlisted, hnone⟩
    obtain ⟨newUsed, hok⟩ := hok
    have hle := Int64.le_iff_toInt_le.mp (hgrows newUsed hok resource)
    -- the new usage is negative, the old one is not
    rw [hnew newUsed hok, wrappedTotal, if_pos hoverflow] at hle
    have hmax := (amount resources resource).toInt_lt
    unfold total at hle
    omega
  · rintro (hfits | ⟨resource, hlisted, hrefused⟩)
    · have hexact : ∀ resource, wrappedTotal used resources resource =
          total used resources resource :=
        fun resource => if_neg (not_le.mpr (hfits resource))
      refine ⟨?_, fun newUsed hok resource => ?_⟩
      · simp only [hgranted, hexact, Fits]
      · rw [Int64.le_iff_toInt_le, hnew newUsed hok, hexact]
        exact le_add_of_nonneg_right (hresources.toInt_amount resource)
    · have hdenied : ¬ ∃ newUsed, reserveResources resources hardLimits used = .ok newUsed := by
        intro hok
        obtain ⟨limit, hlimit, hwithin⟩ := hgranted.mp hok resource hlisted
        obtain ⟨hlimited, hlt⟩ := hrefused limit hlimit
        exact absurd (hwithin hlimited) (not_le.mpr hlt)
      refine ⟨iff_of_false hdenied fun hfits => ?_,
        fun newUsed hok => absurd ⟨newUsed, hok⟩ hdenied⟩
      obtain ⟨limit, hlimit, hwithin⟩ := hfits resource hlisted
      obtain ⟨hlimited, hlt⟩ := hrefused limit hlimit
      exact absurd (hwithin hlimited) (not_le.mpr (hlt.trans_le wrappedTotal_le_total))

theorem nonNegative_storage {value : Int64} (hvalue : 0 ≤ value) : NonNegative (storage value) := by
  intro resource other hother
  have hamount := amount_storage value resource
  rw [amount, hother, Option.getD_some] at hamount
  rw [hamount]
  split_ifs
  · exact hvalue
  · exact Int64.le_refl 0

theorem reserves_exactly_iff_storage :
    NonNegative (storage 4) ∧ NonNegative (storage 6) ∧
      ReservesExactly (storage 10) (storage 4) (storage 6) := by
  have hused : NonNegative (storage 4) := nonNegative_storage (by decide)
  have hresources : NonNegative (storage 6) := nonNegative_storage (by decide)
  refine ⟨hused, hresources, (reserves_exactly_iff _ _ _ hused hresources).mpr (.inl ?_)⟩
  intro resource
  rw [total, amount_storage, amount_storage]
  split_ifs <;> decide

/-- Two bytes below the limit, a request of the largest size is granted. -/
theorem largest_request_granted :
    NonNegative (storage 8) ∧ NonNegative (storage 9223372036854775807) ∧
      reserveResources (storage 9223372036854775807) (storage 10) (storage 8) =
        .ok (storage (-9223372036854775801)) ∧
      ¬ Fits (storage 10) (storage 8) (storage 9223372036854775807) := by
  refine ⟨nonNegative_storage (by decide), nonNegative_storage (by decide), rfl, ?_⟩
  intro hfits
  obtain ⟨limit, hlimit, hwithin⟩ := hfits resourceStorage (.inl (by decide))
  cases hlimit.symm.trans rfl
  exact absurd (hwithin (by decide)) (by decide)

end Harbor.Quotas
