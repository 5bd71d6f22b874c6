import Mathlib.Data.List.Basic

/-!
# Buffered channels

A Go channel with a buffer. Sending blocks while the buffer is full and panics
once the channel is closed; receiving takes what is in the buffer, also after
the close, and then gives the zero value (`none`) for ever. Two parties that
are both ready pass through the buffer.
-/
namespace Wormhole.Go

universe u

/-- A channel: its buffer never holds more than its capacity. -/
structure Channel (α : Type u) where
  capacity : Nat
  buffer : List α
  closed : Bool
  fits : buffer.length ≤ capacity

namespace Channel

variable {α : Type u}

/-- `make(chan T, capacity)` -/
def make (capacity : Nat) : Channel α := ⟨capacity, [], false, Nat.zero_le _⟩

/-- What becomes of a send. -/
inductive Sent (α : Type u)
  | blocked
  | panics
  | done (c : Channel α)

/-- `c <- x` -/
def send (c : Channel α) (x : α) : Sent α :=
  if c.closed then .panics
  else if h : c.buffer.length < c.capacity then
    .done ⟨c.capacity, c.buffer ++ [x], false, by rw [List.length_append]; exact h⟩
  else .blocked

theorem tail_fits (c : Channel α) {x : α} {xs : List α} (h : c.buffer = x :: xs) :
    xs.length ≤ c.capacity := by
  have := c.fits
  rw [h, List.length_cons] at this
  omega

/-- `<-c`; `none` while it blocks. -/
def receive (c : Channel α) : Option (Option α × Channel α) :=
  match h : c.buffer with
  | x :: xs => some (some x, ⟨c.capacity, xs, c.closed, c.tail_fits h⟩)
  | [] => if c.closed then some (none, c) else none

/-- `close(c)`; `none` where the channel is closed already, and it panics. -/
def close (c : Channel α) : Option (Channel α) :=
  if c.closed then none else some ⟨c.capacity, c.buffer, true, c.fits⟩

theorem send_panics_iff {c : Channel α} {x : α} : c.send x = .panics ↔ c.closed = true := by
  unfold send
  split
  · rename_i h; exact iff_of_true rfl h
  · rename_i h
    split <;> exact iff_of_false nofun h

theorem send_done {c d : Channel α} {x : α} (h : c.send x = .done d) :
    d.buffer = c.buffer ++ [x] ∧ d.closed = c.closed := by
  unfold send at h
  split at h
  · cases h
  · rename_i hc
    split at h
    · cases h; exact ⟨rfl, (Bool.eq_false_iff.mpr hc).symm⟩
    · cases h

/-- What is received comes off the front of the buffer, or is the zero value of a
closed channel whose buffer is empty. -/
theorem receive_cases {c d : Channel α} {x : Option α} (h : c.receive = some (x, d)) :
    d.closed = c.closed ∧ ((∃ a, x = some a ∧ c.buffer = a :: d.buffer) ∨
      (x = none ∧ c.buffer = [] ∧ d.buffer = [])) := by
  unfold receive at h
  split at h
  · rename_i a as ha
    cases h
    exact ⟨rfl, .inl ⟨a, rfl, ha⟩⟩
  · rename_i hb
    split at h
    · cases h; exact ⟨rfl, .inr ⟨rfl, hb, hb⟩⟩
    · cases h

/-- The zero value comes out of a closed channel. -/
theorem receive_none {c d : Channel α} (h : c.receive = some (none, d)) : c.closed = true := by
  unfold receive at h
  split at h
  · cases h
  · split at h
    · assumption
    · cases h

theorem receive_closed {c : Channel α} (hc : c.closed = true) (hb : c.buffer = []) :
    c.receive = some (none, c) := by
  unfold receive
  split
  · rename_i hx
    rw [hb] at hx
    cases hx
  · exact if_pos hc

theorem close_some {c d : Channel α} (h : c.close = some d) :
    d.closed = true ∧ d.buffer = c.buffer := by
  unfold close at h
  split at h
  · cases h
  · cases h; exact ⟨rfl, rfl⟩

end Channel
end Wormhole.Go
