/-
Rafka/Guard.lean

What a task does with guards.

Where a guard does not live for a scope (it may be dropped by hand on one path and
kept on another), the guards that a task holds follow from what it has done so far: it
awaits a guard, which it then has, and it drops one (`GuardEvent`).  A call is a
computation that records these events (`Traced`).

A task that awaits the write guard of a lock on which it has a guard itself waits for
ever.  `Waitless held c` says that the call `c`, started with the guards `held`, never
does so; its rules follow the shape of a call.
-/
import Rafka.Lock
import Rafka.Trace

namespace Rafka

variable {L E α β : Type}

/-- A result, and what was done for it. -/
structure Traced (E α : Type) where
  events : List E
  result : α

namespace Traced

instance : Monad (Traced E) where
  pure a := ⟨[], a⟩
  bind t f := ⟨t.events ++ (f t.result).events, (f t.result).result⟩

@[simp] theorem events_pure (a : α) : (pure a : Traced E α).events = [] := rfl

@[simp] theorem events_bind (t : Traced E α) (f : α → Traced E β) :
    (t >>= f).events = t.events ++ (f t.result).events := rfl

@[simp] theorem result_bind (t : Traced E α) (f : α → Traced E β) :
    (t >>= f).result = (f t.result).result := rfl

/-- Do one thing. -/
def record (e : E) : Traced E Unit := ⟨[e], ()⟩

end Traced

/-- What a task does with a lock. -/
inductive GuardEvent (L : Type)
  /-- It waits for a guard and gets it. -/
  | await (lock : L) (mode : Mode)
  | drop (lock : L) (mode : Mode)
deriving DecidableEq

namespace GuardEvent

/-- Await a guard. -/
def get (l : L) (m : Mode) : Traced (GuardEvent L) Unit := .record (.await l m)

/-- Drop a guard. -/
def release (l : L) (m : Mode) : Traced (GuardEvent L) Unit := .record (.drop l m)

/-- A task does not await the write guard of a lock on which it has a guard. -/
def Waitless (held : List (L × Mode)) : GuardEvent L → Prop
  | .await l .write => ∀ g ∈ held, g.1 ≠ l
  | _ => True

variable [DecidableEq L]

instance (held : List (L × Mode)) : ∀ e : GuardEvent L, Decidable (e.Waitless held)
  | .await l .write => inferInstanceAs (Decidable (∀ g ∈ held, g.1 ≠ l))
  | .await _ .read => .isTrue trivial
  | .drop _ _ => .isTrue trivial

/-- The guards that a task holds. -/
def step (held : List (L × Mode)) : GuardEvent L → List (L × Mode)
  | .await l m => (l, m) :: held
  | .drop l m => held.erase (l, m)

end GuardEvent

namespace Traced

open GuardEvent

variable [DecidableEq L] {held held' held'' : List (L × Mode)}
variable {t : Traced (GuardEvent L) α} {f : α → Traced (GuardEvent L) β}

/-- Started with the guards `held`, the call never waits for itself. -/
def Waitless (held : List (L × Mode)) (t : Traced (GuardEvent L) α) : Prop :=
  Along step GuardEvent.Waitless held t.events

instance : Decidable (t.Waitless held) :=
  inferInstanceAs (Decidable (Along step GuardEvent.Waitless held t.events))

/-- It never waits for itself, and ends with the guards `held'`. -/
structure Holds (held held' : List (L × Mode)) (t : Traced (GuardEvent L) α) : Prop where
  waitless : t.Waitless held
  ends : t.events.foldl step held = held'

theorem Holds.pure (a : α) : Holds held held (Pure.pure a : Traced (GuardEvent L) α) :=
  ⟨trivial, rfl⟩

theorem Holds.bind (ht : t.Holds held held') (hf : (f t.result).Holds held' held'') :
    (t >>= f).Holds held held'' := by
  constructor
  · refine along_append.mpr ⟨ht.waitless, ?_⟩
    rw [ht.ends]
    exact hf.waitless
  · rw [events_bind, List.foldl_append, ht.ends]
    exact hf.ends

/-- After a call that does not wait for itself, what follows decides. -/
theorem Holds.waitless_bind_iff (ht : t.Holds held held') :
    (t >>= f).Waitless held ↔ (f t.result).Waitless held' := by
  rw [Waitless, events_bind, along_append, ht.ends]
  exact and_iff_right ht.waitless

theorem waitless_bind_pure (b : β) : (t >>= fun _ => Pure.pure b).Waitless held ↔ t.Waitless held := by
  rw [Waitless, events_bind, events_pure, List.append_nil]
  rfl

theorem Holds.get_read (l : L) : (get l .read).Holds held ((l, .read) :: held) :=
  ⟨⟨trivial, trivial⟩, rfl⟩

theorem Holds.get_write {l : L} (h : ∀ g ∈ held, g.1 ≠ l) :
    (get l .write).Holds held ((l, .write) :: held) :=
  ⟨⟨h, trivial⟩, rfl⟩

/-- The last guard that was awaited is dropped. -/
theorem Holds.release (l : L) (m : Mode) : (release l m).Holds ((l, m) :: held) held :=
  ⟨⟨trivial, trivial⟩, List.erase_cons_head ..⟩

end Traced

end Rafka
