/-
Rafka/Mpsc.lean

Bounded channels with one receiver.

A channel holds at most as many values as its capacity; who sends into a full one waits.
The receiver takes the values in the order in which they were sent.  Once the receiver is
gone nothing waits any more: what was in the channel is lost, and so is what is sent later.

`Mpsc α` carries its own history, the values that have been accepted and those that have
been taken, together with the proof that the two agree; so what is shown of a program that
passes values through a channel is shown without going through the steps of the channel.
-/
import Mathlib.Data.List.Basic

namespace Rafka

/-- A bounded channel with what has been sent and received. -/
structure Mpsc (α : Type*) where
  capacity : Nat
  isOpen : Bool
  sent : List α
  received : List α
  buffer : List α
  length_buffer : buffer.length ≤ capacity
  prefix_sent : received ++ buffer <+: sent
  eq_sent : isOpen = true → received ++ buffer = sent

namespace Mpsc

variable {α : Type*} {c c' : Mpsc α} {x : α}

/-- A new channel. -/
def new (capacity : Nat) : Mpsc α where
  capacity := capacity
  isOpen := true
  sent := []
  received := []
  buffer := []
  length_buffer := Nat.zero_le _
  prefix_sent := List.prefix_rfl
  eq_sent := fun _ => rfl

/-- A value is accepted. -/
def accept (c : Mpsc α) (x : α) (hopen : c.isOpen = true) (hroom : c.buffer.length < c.capacity) :
    Mpsc α :=
  have heq : c.received ++ (c.buffer ++ [x]) = c.sent ++ [x] := by
    rw [← List.append_assoc, c.eq_sent hopen]
  { c with
    sent := c.sent ++ [x]
    buffer := c.buffer ++ [x]
    length_buffer := by
      rw [List.length_append, List.length_singleton]
      exact hroom
    prefix_sent := heq ▸ List.prefix_rfl
    eq_sent := fun _ => heq }

/-- `Sender::send(x).await`, if it can go on: without a receiver it fails, and a full channel
makes it wait. -/
def send? (c : Mpsc α) (x : α) : Option (Mpsc α) :=
  if hopen : c.isOpen = true then
    if hroom : c.buffer.length < c.capacity then some (c.accept x hopen hroom) else none
  else some c

/-- `Receiver::recv().await`, if there is something to receive. -/
def recv? (c : Mpsc α) : Option (α × Mpsc α) :=
  match h : c.buffer with
  | [] => none
  | x :: buffer =>
      have heq : c.received ++ [x] ++ buffer = c.received ++ c.buffer := by
        rw [List.append_assoc, List.singleton_append, h]
      some (x, { c with
        received := c.received ++ [x]
        buffer := buffer
        length_buffer := by
          have hle := c.length_buffer
          rw [h, List.length_cons] at hle
          omega
        prefix_sent := heq ▸ c.prefix_sent
        eq_sent := fun hopen => heq.trans (c.eq_sent hopen) })

/-- The receiver is dropped, and what is in the channel with it. -/
def dropReceiver (c : Mpsc α) : Mpsc α :=
  { c with
    isOpen := false
    buffer := []
    length_buffer := Nat.zero_le _
    prefix_sent := by
      rw [List.append_nil]
      exact (List.prefix_append _ _).trans c.prefix_sent
    eq_sent := fun hopen => by cases hopen }

/-! ### What the calls do -/

/-- What goes on in `send`: the value is accepted, or it is lost. -/
theorem send?_cases (h : c.send? x = some c') :
    (c.isOpen = true ∧ c'.isOpen = true ∧ c'.sent = c.sent ++ [x] ∧ c'.received = c.received ∧
      c'.buffer = c.buffer ++ [x]) ∨
    (c.isOpen = false ∧ c' = c) := by
  rw [send?] at h
  split at h
  · rename_i hopen
    split at h
    · cases h
      exact .inl ⟨hopen, hopen, rfl, rfl, rfl⟩
    · cases h
  · rename_i hclosed
    cases h
    exact .inr ⟨Bool.eq_false_iff.mpr hclosed, rfl⟩

/-- What goes on in `recv`: the oldest value is taken. -/
theorem recv?_eq_some (h : c.recv? = some (x, c')) :
    c'.isOpen = c.isOpen ∧ c'.sent = c.sent ∧ c'.received = c.received ++ [x] ∧
      c.buffer = x :: c'.buffer := by
  rw [recv?] at h
  split at h
  · cases h
  · rename_i y buffer hbuffer
    cases h
    exact ⟨rfl, rfl, rfl, hbuffer⟩

theorem recv?_eq_none : c.recv? = none ↔ c.buffer = [] := by
  rw [recv?]
  split
  · rename_i hbuffer
    exact iff_of_true rfl hbuffer
  · rename_i y buffer hbuffer
    apply iff_of_false
    · exact Option.some_ne_none _
    · rw [hbuffer]
      exact List.cons_ne_nil y buffer

theorem capacity_send? (h : c.send? x = some c') : c'.capacity = c.capacity := by
  rw [send?] at h
  split at h
  · split at h
    · cases h
      rfl
    · cases h
  · cases h
    rfl

theorem capacity_recv? (h : c.recv? = some (x, c')) : c'.capacity = c.capacity := by
  rw [recv?] at h
  split at h
  · cases h
  · cases h
    rfl

end Mpsc

end Rafka
