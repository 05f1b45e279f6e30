import Mathlib.Data.List.Basic

/-!
# Buffered channels

A channel of Go with a buffer.  A send is enabled while there is room, and a
receive while there is something in the buffer or the channel is closed; what is
in the buffer of a closed channel is still received.  The bound on the buffer is
part of the type.
-/

namespace Harbor.Concurrency

/-- A channel whose buffer holds at most `capacity` items. -/
structure Channel (α : Type) (capacity : ℕ) where
  buffer : List α
  closed : Bool
  length_le : buffer.length ≤ capacity

namespace Channel

variable {α : Type} {capacity : ℕ} {channel after : Channel α capacity} {item : α}

def make (α : Type) (capacity : ℕ) : Channel α capacity := ⟨[], false, Nat.zero_le _⟩

/-- Send an item, if there is room. -/
def send (channel : Channel α capacity) (item : α) : Option (Channel α capacity) :=
  if h : channel.buffer.length < capacity then
    some ⟨channel.buffer ++ [item], channel.closed, by rw [List.length_append]; exact h⟩
  else none

/-- Receive an item, if there is one. -/
def receive? : Channel α capacity → Option (α × Channel α capacity)
  | ⟨[], _, _⟩ => none
  | ⟨item :: rest, closed, h⟩ => some (item, ⟨rest, closed, Nat.le_of_succ_le h⟩)

/-- A receive finds the channel closed. -/
def drained (channel : Channel α capacity) : Bool :=
  channel.closed && channel.buffer.isEmpty

def close (channel : Channel α capacity) : Channel α capacity :=
  { channel with closed := true }

theorem send_eq_some (hsend : channel.send item = some after) :
    after.buffer = channel.buffer ++ [item] ∧ after.closed = channel.closed := by
  unfold send at hsend
  split_ifs at hsend
  cases hsend
  exact ⟨rfl, rfl⟩

theorem exists_send (hroom : channel.buffer.length < capacity) (item : α) :
    ∃ after, channel.send item = some after :=
  ⟨_, dif_pos hroom⟩

theorem receive?_eq_some (hreceive : channel.receive? = some (item, after)) :
    channel.buffer = item :: after.buffer ∧ after.closed = channel.closed := by
  obtain ⟨buffer, closed, hlength⟩ := channel
  cases buffer with
  | nil => cases hreceive
  | cons first rest =>
    cases hreceive
    exact ⟨rfl, rfl⟩

theorem exists_receive? (hitem : channel.buffer ≠ []) :
    ∃ item after, channel.receive? = some (item, after) := by
  obtain ⟨buffer, closed, hlength⟩ := channel
  cases buffer with
  | nil => exact absurd rfl hitem
  | cons first rest => exact ⟨first, _, rfl⟩

theorem drained_iff : channel.drained ↔ channel.closed = true ∧ channel.buffer = [] := by
  simp [drained]

end Channel

end Harbor.Concurrency
