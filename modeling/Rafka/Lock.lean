/-
Rafka/Lock.lean

Calls under locks that are not re-entrant.

A call runs on a state `σ` and takes guards on locks named by `L`.  A guard
lives for a scope, so the guards held at any point are known from where the
call is: they are a parameter of the computation, extended by `withLock`
for the guarded scope.  A request that conflicts with a guard the same call
already holds never returns (`Stop.blocked`).

The held guards may also be left out (`ideal`): then every request succeeds.
This is the reading in which the code *means* something, to be compared with
the one in which it runs (`free`, a call that starts with no guard).

`Completes g I c` says that `c`, started with the guards `g` where `I` holds,
returns and re-establishes `I`; its rules follow the shape of a call.  So do
those of `Preserves f c`: whenever `c` returns, `f` of the state is as it was.
-/
import Mathlib.Tactic.Common

namespace Rafka

variable {L σ α β : Type}

/-- How a guard shares its lock. -/
inductive Mode
  | read
  | write
deriving DecidableEq

/-- Why a call does not return. -/
inductive Stop (L : Type)
  /-- It waits for a lock it holds itself. -/
  | blocked (lock : L)
  /-- It panics. -/
  | panicked
deriving DecidableEq

/-- The guards a call holds, or `none` where locking is left out. -/
def Guards (L : Type) := Option (List (L × Mode))

namespace Guards

/-- No guard is held. -/
def free : Guards L := some []

/-- Locking is left out. -/
def ideal : Guards L := none

variable [DecidableEq L]

/-- A request does not conflict with any guard held: only readers share. -/
def admits : Guards L → L → Mode → Bool
  | none, _, _ => true
  | some held, l, m => held.all fun h => h.1 ≠ l || (h.2 == .read && m == .read)

/-- One more guard. -/
def push (g : Guards L) (l : L) (m : Mode) : Guards L := g.map fun held => (l, m) :: held

@[simp] theorem admits_free (l : L) (m : Mode) : (free : Guards L).admits l m = true := rfl

/-- A guard on another lock, or a second reader, does not stand in the way. -/
theorem admits_push {g : Guards L} {l l' : L} {m m' : Mode} (h : g.admits l m = true)
    (hl : l' ≠ l ∨ m' = .read ∧ m = .read) : (g.push l' m').admits l m = true := by
  cases g with
  | none => rfl
  | some held =>
      have hhead : (l' ≠ l || (m' == .read && m == .read)) = true := by
        simpa using hl
      simp only [push, Option.map_some, admits, List.all_cons, Bool.and_eq_true]
      exact ⟨hhead, h⟩

end Guards

/-- A call on the state `σ` under locks `L`. -/
def LockM (L σ α : Type) := Guards L → σ → Except (Stop L) (α × σ)

namespace LockM

instance : Monad (LockM L σ) where
  pure a := fun _ s => .ok (a, s)
  bind c f := fun g s =>
    match c g s with
    | .ok (a, s') => f a g s'
    | .error e => .error e

/-- Read the state. -/
def get : LockM L σ σ := fun _ s => .ok (s, s)

/-- Replace the state. -/
def set (s : σ) : LockM L σ Unit := fun _ _ => .ok ((), s)

/-- Change the state. -/
def modify (f : σ → σ) : LockM L σ Unit := fun _ s => .ok ((), f s)

/-- Stop with a panic. -/
def panicked : LockM L σ α := fun _ _ => .error .panicked

/-- Run `body` in the scope of a guard. -/
def withLock [DecidableEq L] (l : L) (m : Mode) (body : LockM L σ α) : LockM L σ α :=
  fun g s => if g.admits l m then body (g.push l m) s else .error (.blocked l)

variable {g : Guards L} {s : σ}

theorem pure_run (a : α) : (pure a : LockM L σ α) g s = .ok (a, s) := rfl

theorem bind_run (c : LockM L σ α) (f : α → LockM L σ β) :
    (c >>= f) g s =
      match c g s with
      | .ok (a, s') => f a g s'
      | .error e => .error e := rfl

theorem get_run : (get : LockM L σ σ) g s = .ok (s, s) := rfl

theorem modify_run (f : σ → σ) : (modify f : LockM L σ Unit) g s = .ok ((), f s) := rfl

theorem panicked_run : (panicked : LockM L σ α) g s = .error .panicked := rfl

theorem withLock_run [DecidableEq L] {l : L} {m : Mode} {body : LockM L σ α}
    (h : g.admits l m = true) : withLock l m body g s = body (g.push l m) s :=
  if_pos h

/-! ### Calls that return -/

/-- Started with the guards `g` where `I` holds, the call returns and `I`
holds again. -/
def Completes (g : Guards L) (I : σ → Prop) (c : LockM L σ α) : Prop :=
  ∀ s, I s → ∃ a s', c g s = .ok (a, s') ∧ I s'

variable {I : σ → Prop}

theorem Completes.pure (a : α) : Completes g I (Pure.pure a : LockM L σ α) :=
  fun s hs => ⟨a, s, rfl, hs⟩

theorem Completes.bind {c : LockM L σ α} {f : α → LockM L σ β} (hc : Completes g I c)
    (hf : ∀ a, Completes g I (f a)) : Completes g I (c >>= f) := by
  intro s hs
  obtain ⟨a, s', hrun, hs'⟩ := hc s hs
  obtain ⟨b, s'', hrun', hs''⟩ := hf a s' hs'
  exact ⟨b, s'', by rw [bind_run, hrun]; exact hrun', hs''⟩

theorem Completes.modify {f : σ → σ} (hf : ∀ s, I s → I (f s)) :
    Completes g I (modify f : LockM L σ Unit) :=
  fun s hs => ⟨(), f s, rfl, hf s hs⟩

theorem Completes.withLock [DecidableEq L] {l : L} {m : Mode} {body : LockM L σ α}
    (h : g.admits l m = true) (hbody : Completes (g.push l m) I body) :
    Completes g I (withLock l m body) := by
  intro s hs
  obtain ⟨a, s', hrun, hs'⟩ := hbody s hs
  exact ⟨a, s', by rw [withLock_run h, hrun], hs'⟩

/-- A loop completes if each of its turns does. -/
theorem Completes.foldlM {γ : Type} {f : β → γ → LockM L σ β}
    (hf : ∀ b x, Completes g I (f b x)) (l : List γ) (b : β) :
    Completes g I (l.foldlM f b) := by
  induction l generalizing b with
  | nil => exact Completes.pure b
  | cons x l ih => exact (hf b x).bind fun b' => ih b'

/-- A loop whose turns do to the state what `next` does, does what the fold of
`next` does. -/
theorem foldlM_run {γ : Type} {f : Unit → γ → LockM L σ Unit} {next : σ → γ → σ}
    (hf : ∀ x s, I s → f () x g s = .ok ((), next s x) ∧ I (next s x)) (l : List γ) {s : σ}
    (hs : I s) : l.foldlM f () g s = .ok ((), l.foldl next s) ∧ I (l.foldl next s) := by
  induction l generalizing s with
  | nil => exact ⟨rfl, hs⟩
  | cons x l ih =>
      obtain ⟨hrun, hnext⟩ := hf x s hs
      rw [List.foldlM_cons, bind_run, hrun]
      exact ih hnext

/-- A loop that only reads folds what its turns compute. -/
theorem foldlM_query {γ : Type} {f : β → γ → LockM L σ β} {next : β → γ → β} {s : σ}
    (hf : ∀ b x, f b x g s = .ok (next b x, s)) (l : List γ) (b : β) :
    l.foldlM f b g s = .ok (l.foldl next b, s) := by
  induction l generalizing b with
  | nil => rfl
  | cons x l ih =>
      rw [List.foldlM_cons, bind_run, hf]
      exact ih (next b x)

/-! ### What calls leave alone -/

/-- Whenever the call returns, it has left `f` of the state as it was. -/
def Preserves {τ : Type} (f : σ → τ) (c : LockM L σ α) : Prop :=
  ∀ ⦃g s a s'⦄, c g s = .ok (a, s') → f s' = f s

section Preserves

variable {τ : Type} {f : σ → τ}

theorem Preserves.pure (a : α) : Preserves f (Pure.pure a : LockM L σ α) := by
  rintro g s a s' ⟨⟩
  rfl

theorem Preserves.get : Preserves f (get : LockM L σ σ) := by
  rintro g s a s' ⟨⟩
  rfl

theorem Preserves.panicked : Preserves f (panicked : LockM L σ α) := by
  rintro g s a s' ⟨⟩

theorem Preserves.modify {next : σ → σ} (hnext : ∀ s, f (next s) = f s) :
    Preserves f (modify next : LockM L σ Unit) := by
  rintro g s a s' ⟨⟩
  exact hnext s

theorem Preserves.bind {c : LockM L σ α} {k : α → LockM L σ β} (hc : Preserves f c)
    (hk : ∀ a, Preserves f (k a)) : Preserves f (c >>= k) := by
  intro g s b s'' h
  rw [bind_run] at h
  cases hrun : c g s with
  | error e =>
      rw [hrun] at h
      cases h
  | ok r =>
      rw [hrun] at h
      exact (hk r.1 h).trans (hc hrun)

theorem Preserves.withLock [DecidableEq L] {l : L} {m : Mode} {body : LockM L σ α}
    (hbody : Preserves f body) : Preserves f (withLock l m body) := by
  intro g s a s' h
  rw [LockM.withLock] at h
  split_ifs at h
  exact hbody h

theorem Preserves.foldlM {γ : Type} {turn : β → γ → LockM L σ β}
    (hturn : ∀ b x, Preserves f (turn b x)) (l : List γ) (b : β) :
    Preserves f (l.foldlM turn b) := by
  induction l generalizing b with
  | nil => exact .pure b
  | cons x l ih => exact .bind (hturn b x) ih

end Preserves

end LockM

end Rafka
