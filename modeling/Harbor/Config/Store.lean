import Harbor.Concurrency.Transition
import Mathlib.Data.Option.Basic
import Mathlib.Tactic

/-!
# The configuration in memory

`UpdateConfig` sets the new values in memory before it calls the driver, and `Load` only adds or
replaces the keys that the driver delivers.  What memory has for a key that is not stored is
therefore never taken back, be it the value of an update whose `Save` failed or one whose key
another node has removed.  Without such updates and removals memory follows the stored values,
`load_follows_stored`.
-/

namespace Harbor.Config

open Harbor.Concurrency

inductive Scope
  | user
  | system
  deriving DecidableEq

structure Item where
  scope : Scope
  defaultValue : String := ""
  validate : String → Bool
  /-- What the driver stores for a value: passwords are encrypted, one DN is normalised. -/
  encode : String → String
  /-- What it loads, unless a password cannot be decrypted. -/
  decode : String → Option String

structure ConfigureValue where
  name : String := ""
  value : String := ""
  deriving DecidableEq

/-- What is read and set, with the values at the driver when they were last loaded unless
there was an update since. -/
structure ConfigStore where
  cfgValues : String → Option ConfigureValue
  stored : String → Option String
  loaded : Option (String → Option String) := none

inductive ConfigEvent
  | update (cfgs : String → Option String) (saved : Bool)
  | load (delivered : Bool)
  /-- Another node changes the stored values. -/
  | change (stored : String → Option String)

section Store

variable (getByName : String → Option Item)

/-- `none` if the item is not defined or the value is not valid. -/
def newCfgValue (name value : String) : Option ConfigureValue :=
  match getByName name with
  | some item => if item.validate value then some ⟨name, value⟩ else none
  | none => none

def loadDefault (key : String) : Option ConfigureValue :=
  match getByName key with
  | some item =>
    if item.defaultValue ≠ "" then newCfgValue getByName key item.defaultValue else none
  | none => none

variable (stored : String → Option String)

def driverLoad (key : String) : Option String :=
  match getByName key with
  | some item => if item.scope = .system then none else (stored key).bind item.decode
  | none => none

def driverSave (stored cfgs : String → Option String) (key : String) : Option String :=
  match getByName key, cfgs key with
  | some item, some text => if item.scope = .system then stored key else some (item.encode text)
  | _, _ => stored key

namespace ConfigStore

variable (store : ConfigStore)

def get (key : String) : ConfigureValue := (store.cfgValues key).getD {}

def load : ConfigStore :=
  { store with
    cfgValues := fun key =>
      ((driverLoad getByName store.stored key).bind (newCfgValue getByName key)).or
        (store.cfgValues key)
    loaded := some store.stored }

/-- Values that are not valid are skipped in memory and at the driver. -/
def update (cfgs : String → Option String) (saved : Bool) : ConfigStore where
  cfgValues := fun key =>
    ((cfgs key).bind (newCfgValue getByName key)).or (store.cfgValues key)
  stored :=
    if saved then
      driverSave getByName store.stored fun key =>
        (cfgs key).filter fun text => (newCfgValue getByName key text).isSome
    else store.stored

def step : ConfigEvent → Option ConfigStore
  | .update cfgs saved => some (store.update getByName cfgs saved)
  | .load delivered => some (if delivered then store.load getByName else store)
  | .change stored => some { store with stored }

def UserKey (key : String) : Prop := ∃ item, getByName key = some item ∧ item.scope = .user

/-- Valid stored values are read, and defaults where nothing is stored. -/
def Follows : Prop :=
  ∀ key, UserKey getByName key →
    (∀ value cfgValue, driverLoad getByName stored key = some value →
      newCfgValue getByName key value = some cfgValue → store.get key = cfgValue) ∧
    (stored key = none → store.get key = (loadDefault getByName key).getD {})

/-- Since the last `Load`, if there was no update, memory follows what it has loaded. -/
def InStep : Prop := ∀ stored, store.loaded = some stored → store.Follows getByName stored

/-- An update that is not saved sets only keys that are stored, and no key is removed. -/
def Covered : ConfigEvent → ConfigStore → Prop
  | .update cfgs saved, _ => saved = false → ∀ key text, UserKey getByName key →
      cfgs key = some text → (newCfgValue getByName key text).isSome → store.stored key ≠ none
  | .change stored, _ => ∀ key, UserKey getByName key → store.stored key ≠ none → stored key ≠ none
  | .load _, _ => True

/-- Nothing but its default is in memory for a key that is not stored. -/
structure Backed : Prop where
  default_of_none : ∀ key, UserKey getByName key → store.stored key = none →
    store.cfgValues key = loadDefault getByName key
  inStep : store.InStep getByName

variable {getByName} {store}

theorem driverSave_eq {stored cfgs : String → Option String} {key : String} {item : Item}
    (hitem : getByName key = some item) (hscope : item.scope = .user) :
    driverSave getByName stored cfgs key = ((cfgs key).map item.encode).or (stored key) := by
  cases hcfg : cfgs key <;> simp [driverSave, hitem, hcfg, hscope]

theorem Backed.load (h : store.Backed getByName) : (store.load getByName).Backed getByName := by
  have hnone : ∀ key, UserKey getByName key → store.stored key = none →
      (store.load getByName).cfgValues key = loadDefault getByName key := by
    rintro key ⟨item, hitem, hscope⟩ hstored
    simp only [ConfigStore.load, driverLoad, hitem, hscope, hstored]
    exact h.default_of_none key ⟨item, hitem, hscope⟩ hstored
  refine ⟨hnone, fun stored hloaded key hkey => ?_⟩
  cases hloaded
  refine ⟨fun value cfgValue hvalue hvalid => ?_, fun hstored => ?_⟩
  · simp [get, ConfigStore.load, hvalue, hvalid]
  · rw [get, hnone key hkey hstored]

theorem Backed.update {cfgs : String → Option String} {saved : Bool} (h : store.Backed getByName)
    (hcovered : store.Covered getByName (.update cfgs saved) (store.update getByName cfgs saved)) :
    (store.update getByName cfgs saved).Backed getByName := by
  refine ⟨fun key hkey hnone => ?_, fun stored hloaded => by cases hloaded⟩
  have ⟨item, hitem, hscope⟩ := hkey
  -- a valid value would have been stored, now or before
  obtain ⟨hunset, hstored⟩ :
      (∀ text, cfgs key = some text → newCfgValue getByName key text = none) ∧
        store.stored key = none := by
    cases saved with
    | false =>
      refine ⟨fun text htext => ?_, hnone⟩
      by_contra hvalid
      exact hcovered rfl key text hkey htext (Option.ne_none_iff_isSome.mp hvalid) hnone
    | true =>
      simp only [ConfigStore.update, if_true, driverSave_eq hitem hscope, Option.or_eq_none_iff,
        Option.map_eq_none_iff, Option.filter_eq_none_iff] at hnone
      simpa using hnone
  simp only [ConfigStore.update, Option.bind_eq_none_iff.mpr hunset, Option.none_or]
  exact h.default_of_none key hkey hstored

theorem Backed.step {event : ConfigEvent} {next : ConfigStore} (h : store.Backed getByName)
    (hstep : store.step getByName event = some next)
    (hcovered : store.Covered getByName event next) : next.Backed getByName := by
  cases event with
  | update cfgs saved =>
    cases hstep
    exact h.update hcovered
  | load delivered =>
    cases hstep
    split
    · exact h.load
    · exact h
  | change stored =>
    cases hstep
    refine ⟨fun key hkey hnone => h.default_of_none key hkey ?_, h.inStep⟩
    by_contra hstored
    exact hcovered key hkey hstored hnone

end ConfigStore

/-- After the start of a node, with these values at the driver. -/
def ConfigStore.init : ConfigStore :=
  ⟨loadDefault getByName, stored, none⟩

/-- Memory follows the driver all along. -/
abbrev ConfigStore.Runs (events : List ConfigEvent) : Prop :=
  EveryStep (step getByName) (fun _ _ next => next.InStep getByName) (init getByName stored) events

/-- **Memory follows the stored values** from each `Load` to the next update, for all stored
values and all events that keep the keys in memory stored. -/
theorem load_follows_stored (stored : String → Option String) (events : List ConfigEvent)
    (hcovered : EveryStep (ConfigStore.step getByName) (ConfigStore.Covered getByName)
      (.init getByName stored) events) : ConfigStore.Runs getByName stored events := by
  refine everyStep_of_invariant (ConfigStore.Backed getByName) ?_
    ⟨fun _ _ _ => rfl, fun _ hloaded => by cases hloaded⟩ hcovered
  intro store event next h hstep hP
  exact ⟨h.step hstep hP, (h.step hstep hP).inStep⟩

end Store

/-- All items are texts without restrictions and without defaults. -/
def plainItems (_name : String) : Option Item :=
  some { scope := .user, validate := fun _ => true, encode := id, decode := some }

/-- An update that is not saved, and a change by another node, of a key that is stored. -/
theorem load_follows_stored_changed :
    ConfigStore.Runs plainItems (fun _ => none)
      [.update (fun _ => some "value") true, .update (fun _ => some "unsaved") false,
        .change fun _ => some "other", .load true] := by
  refine load_follows_stored _ _ _ (everyStep_cons rfl (by rintro ⟨⟩) ?_)
  refine everyStep_cons rfl ?_ (everyStep_cons rfl ?_ (everyStep_cons rfl trivial trivial))
  · intro _ key text _ _ _ hnone
    cases hnone
  · intro key _ _ hnone
    cases hnone

/-- A value that could not be saved is read after the next `Load`, and so is one that has been
removed. -/
theorem load_keeps_unstored :
    ¬ ConfigStore.Runs plainItems (fun _ => none)
        [.update (fun _ => some "value") false, .load true] ∧
      ¬ ConfigStore.Runs plainItems (fun _ => none)
        [.update (fun _ => some "value") true, .change fun _ => none, .load true] := by
  constructor
  · intro hrun
    obtain ⟨-, hrun⟩ := hrun _ rfl
    obtain ⟨hlast, -⟩ := hrun _ rfl
    exact absurd ((hlast _ rfl "key" ⟨_, rfl, rfl⟩).2 rfl) (by decide)
  · intro hrun
    obtain ⟨-, hrun⟩ := hrun _ rfl
    obtain ⟨-, hrun⟩ := hrun _ rfl
    obtain ⟨hlast, -⟩ := hrun _ rfl
    exact absurd ((hlast _ rfl "key" ⟨_, rfl, rfl⟩).2 rfl) (by decide)

end Harbor.Config
