/-
Rafka/MessagePool.lean

Pools of message objects (`crates/core/src/memory_pool.rs`).

`MessagePool::get` hands out an object of the pool, or a new one if there is
none.  An object that is dropped is given to a task that returns it to the pool
later, where it is reset, unless the pool is full and it is freed.  The pool is
generic, and it can reset objects of one type only, which it finds out at run
time by a downcast.

An object is a value with the address it was made at.  What users do to the
objects they hold is arbitrary: they change them in place, swap two of them, put
another object in the place of one, or return objects of their own.  The tasks
that return objects run in any order, or not at all.

Main result (`carries_nothing_over`): every message that is handed out is the
default one, no object is in two places at once, and the pool is never larger
than allowed.
-/
import Mathlib.Logic.Equiv.Defs
import Rafka.Trace

namespace Rafka

/-- `OptimizedMessage`. -/
structure OptimizedMessage where
  id : String
  topic : String
  payload : List UInt8
  timestamp : UInt64
  partition : UInt32
  offset : Int64
deriving DecidableEq

/-- `OptimizedMessage::default`. -/
instance : Inhabited OptimizedMessage := ⟨"", "", [], 0, 0, 0⟩

/-- `OptimizedMessage::reset`. -/
def OptimizedMessage.reset (message : OptimizedMessage) : OptimizedMessage :=
  { message with
    id := ""
    topic := ""
    payload := []
    timestamp := 0
    partition := 0
    offset := 0 }

/-- What `downcast_mut::<OptimizedMessage>()` finds of the values of a type. -/
class Downcast (T : Type) where
  toOptimizedMessage : Option (T ≃ OptimizedMessage)

instance : Downcast OptimizedMessage := ⟨some (Equiv.refl OptimizedMessage)⟩

/-- A value with the address it was made at. -/
structure Pooled (T : Type) where
  address : Nat
  value : T

/-- `MessagePool`. -/
structure MessagePool (T : Type) where
  pool : List (Pooled T)
  maxSize : Nat

namespace MessagePool

variable {T : Type}

/-- `MessagePool::new`. -/
def new (maxSize : Nat) : MessagePool T := ⟨[], maxSize⟩

/-- `MessagePool::get`; a new object is made at `fresh`. -/
def get [Inhabited T] (p : MessagePool T) (fresh : Nat) : Pooled T × MessagePool T :=
  match p.pool with
  | message :: pool => (message, { p with pool })
  | [] => (⟨fresh, default⟩, p)

/-- The reset in `return_message`, if the downcast succeeds. -/
def resetMessage [Downcast T] (message : T) : T :=
  match Downcast.toOptimizedMessage (T := T) with
  | some cast => cast.symm (cast message).reset
  | none => message

/-- `MessagePool::return_message`. -/
def returnMessage [Downcast T] (p : MessagePool T) (message : Pooled T) : MessagePool T :=
  if p.pool.length < p.maxSize then
    { p with pool := p.pool ++ [{ message with value := resetMessage message.value }] }
  else p

end MessagePool

/-- `PooledMessage`; the object is taken out when it is dropped. -/
structure PooledMessage (T : Type) where
  message : Option (Pooled T)

/-- A pool and everything around it. -/
structure PoolState (T : Type) where
  pool : MessagePool T
  /-- What `get` has returned, in order. -/
  holders : List (PooledMessage T)
  /-- The tasks that return an object; `none` once they are over. -/
  returning : List (Option (Pooled T))
  /-- No object has been made at this address yet, or a later one. -/
  created : Nat
  /-- The values of the objects at the time they were handed out. -/
  handedOut : List T

/-- What happens next. -/
inductive PoolLabel (T : Type)
  /-- `MessagePool::get`. -/
  | get
  /-- Holder `i` changes its message in place. -/
  | change (i : Nat) (value : T)
  /-- Holders `i` and `j` exchange their messages. -/
  | swap (i j : Nat)
  /-- Holder `i` puts another object in the place of its message, which it frees. -/
  | replace (i : Nat) (value : T)
  /-- `PooledMessage::drop` of holder `i`. -/
  | drop (i : Nat)
  /-- Somebody calls `return_message` with an object of its own. -/
  | returnMessage (value : T)
  /-- Task `k` returns its object. -/
  | complete (k : Nat)
  /-- Task `k` is dropped by the runtime. -/
  | abort (k : Nat)

namespace PoolState

variable {T : Type}

/-- An empty pool. -/
def start (maxSize : Nat) : PoolState T := ⟨.new maxSize, [], [], 0, []⟩

/-- The object that holder `i` has. -/
def held? (s : PoolState T) (i : Nat) : Option (Pooled T) := s.holders[i]?.bind PooledMessage.message

/-- Holder `i` now has this. -/
def hold (s : PoolState T) (i : Nat) (message : Option (Pooled T)) : PoolState T :=
  { s with holders := s.holders.set i ⟨message⟩ }

/-- One step. -/
def step [Inhabited T] [Downcast T] (s : PoolState T) : PoolLabel T → PoolState T
  | .get =>
      let (message, pool) := s.pool.get s.created
      { s with
        pool
        holders := s.holders ++ [⟨some message⟩]
        created := s.created + 1
        handedOut := s.handedOut ++ [message.value] }
  | .change i value =>
      match s.held? i with
      | some message => s.hold i (some { message with value })
      | none => s
  | .swap i j =>
      match s.held? i, s.held? j with
      | some message, some message' => (s.hold i (some message')).hold j (some message)
      | _, _ => s
  | .replace i value =>
      match s.held? i with
      | some _ => { s.hold i (some ⟨s.created, value⟩) with created := s.created + 1 }
      | none => s
  | .drop i =>
      match s.held? i with
      | some message => { s.hold i none with returning := s.returning ++ [some message] }
      | none => s
  | .returnMessage value =>
      { s with returning := s.returning ++ [some ⟨s.created, value⟩], created := s.created + 1 }
  | .complete k =>
      match s.returning[k]?.join with
      | some message =>
          { s with pool := s.pool.returnMessage message, returning := s.returning.set k none }
      | none => s
  | .abort k => { s with returning := s.returning.set k none }

/-- What is promised of a pool. -/
structure Sound [Inhabited T] (s : PoolState T) : Prop where
  /-- Every message was the default one when it was handed out. -/
  clean : ∀ value ∈ s.handedOut, value = default
  /-- No object is held by two users. -/
  exclusive : ∀ i j message message', s.held? i = some message → s.held? j = some message' →
    message.address = message'.address → i = j
  /-- An object that is held is neither in the pool nor on the way to it. -/
  apart : ∀ i message, s.held? i = some message →
    (∀ other ∈ s.pool.pool, other.address ≠ message.address) ∧
      ∀ other, some other ∈ s.returning → other.address ≠ message.address
  bounded : s.pool.pool.length ≤ s.pool.maxSize

/-! ### Where the objects are -/

/-- The address of an object, if there is one. -/
def addressOf (message : Option (Pooled T)) : List Nat := (message.map Pooled.address).toList

/-- The addresses of all objects, as often as there is something that has them. -/
def places (s : PoolState T) : List Nat :=
  s.holders.flatMap (fun holder => addressOf holder.message) ++
    (s.returning.flatMap addressOf ++ s.pool.pool.map Pooled.address)

/-- Every address is in one place at most, and only if an object was made there. -/
def Unique (s : PoolState T) : Prop :=
  ∀ address, s.places.count address ≤ if address < s.created then 1 else 0

variable {s : PoolState T} {i j k : Nat} {message : Pooled T}

theorem count_places (s : PoolState T) (address : Nat) :
    s.places.count address =
      (s.holders.flatMap fun holder => addressOf holder.message).count address +
        ((s.returning.flatMap addressOf).count address +
          (s.pool.pool.map Pooled.address).count address) := by
  rw [places, List.count_append, List.count_append]

theorem count_addressOf_some (message : Pooled T) (address : Nat) :
    (addressOf (some message)).count address = if message.address = address then 1 else 0 := by
  simp [addressOf, List.count_singleton]

theorem count_addressOf_none (address : Nat) : (addressOf (none : Option (Pooled T))).count address = 0 :=
  rfl

theorem getElem?_of_held (h : s.held? i = some message) :
    s.holders[i]? = some ⟨some message⟩ := by
  obtain ⟨⟨held⟩, hholder, hheld⟩ := Option.bind_eq_some_iff.mp h
  cases hheld
  exact hholder

/-- What one holder has instead of its object is in its place. -/
theorem count_hold (h : s.held? i = some message) (new : Option (Pooled T)) (address : Nat) :
    (s.hold i new).places.count address + (addressOf (some message)).count address =
      s.places.count address + (addressOf new).count address := by
  have hset := count_flatMap_set (y := ⟨new⟩) (fun holder => addressOf holder.message) address
    (getElem?_of_held h)
  dsimp only at hset
  rw [count_places, count_places]
  simp only [hold]
  omega

theorem held_hold_ne (hne : j ≠ i) (new : Option (Pooled T)) : (s.hold i new).held? j = s.held? j := by
  rw [held?, hold, List.getElem?_set_ne hne.symm]
  rfl

theorem held_hold_self (h : s.held? i = some message) (new : Option (Pooled T)) :
    (s.hold i new).held? i = new := by
  have hlt := (List.getElem?_eq_some_iff.mp (getElem?_of_held h)).1
  rw [held?, hold, List.getElem?_set_self hlt]
  rfl

/-- No address is with two holders. -/
theorem Unique.holder_eq (h : s.Unique) {message' : Pooled T} (hi : s.held? i = some message)
    (hj : s.held? j = some message') (hsame : message.address = message'.address) : i = j := by
  by_contra hne
  -- take the objects away from both
  have hfirst := count_hold hi none message.address
  have hj' : (s.hold i none).held? j = some message' := by
    rw [held_hold_ne (Ne.symm hne), hj]
  have hsecond := count_hold hj' none message.address
  simp only [count_addressOf_some, count_addressOf_none, hsame, if_true] at hfirst hsecond
  have hone := h message.address
  rw [hsame] at hone
  split_ifs at hone
  · omega
  · omega

/-- What a holder has nobody else has. -/
theorem Unique.apart (h : s.Unique) (hi : s.held? i = some message) :
    (∀ other ∈ s.pool.pool, other.address ≠ message.address) ∧
      ∀ other, some other ∈ s.returning → other.address ≠ message.address := by
  have hone : s.places.count message.address ≤ 1 := by
    apply Nat.le_trans (h message.address)
    split_ifs
    · exact Nat.le_refl 1
    · exact Nat.zero_le 1
  have hheld : message.address ∈ s.holders.flatMap fun holder => addressOf holder.message :=
    List.mem_flatMap.mpr ⟨_, List.mem_of_getElem? (getElem?_of_held hi), by simp [addressOf]⟩
  have hpos := List.count_pos_iff.mpr hheld
  rw [count_places] at hone
  constructor
  · intro other hother hsame
    have hpool : message.address ∈ s.pool.pool.map Pooled.address :=
      List.mem_map.mpr ⟨other, hother, hsame⟩
    have := List.count_pos_iff.mpr hpool
    omega
  · intro other hother hsame
    have hreturning : message.address ∈ s.returning.flatMap addressOf :=
      List.mem_flatMap.mpr ⟨some other, hother, by simp [addressOf, hsame]⟩
    have := List.count_pos_iff.mpr hreturning
    omega

/-! ### Steps -/

theorem Unique.of_le {s' : PoolState T} (h : s.Unique) (hcreated : s.created = s'.created)
    (hcount : ∀ address, s'.places.count address ≤ s.places.count address) : s'.Unique := by
  intro address
  rw [← hcreated]
  exact Nat.le_trans (hcount address) (h address)

/-- Making one object. -/
theorem Unique.of_fresh {s' : PoolState T} (h : s.Unique) (hcreated : s'.created = s.created + 1)
    (hcount : ∀ address, s'.places.count address ≤
      s.places.count address + if s.created = address then 1 else 0) : s'.Unique := by
  intro address
  have hle := hcount address
  have hold := h address
  rw [hcreated]
  split_ifs at hle hold ⊢ <;> omega

/-- A task that is over has nothing any more. -/
theorem count_returning {task : Option (Pooled T)} (hk : s.returning[k]? = some task)
    (address : Nat) :
    ((s.returning.set k none).flatMap addressOf).count address + (addressOf task).count address =
      (s.returning.flatMap addressOf).count address :=
  count_flatMap_set addressOf address hk

variable [Inhabited T] [Downcast T]

/-- **Step lemma.**  Objects are moved, made at a new address or freed. -/
theorem Unique.step (h : s.Unique) (label : PoolLabel T) : (s.step label).Unique := by
  cases label with
  | get =>
      apply h.of_fresh rfl
      intro address
      rw [count_places, count_places]
      simp only [PoolState.step, MessagePool.get]
      cases hpool : s.pool.pool with
      | nil =>
          simp only [List.flatMap_append, List.flatMap_singleton, List.count_append,
            count_addressOf_some, hpool]
          omega
      | cons message pool =>
          simp only [List.flatMap_append, List.flatMap_singleton, List.count_append,
            count_addressOf_some, List.map_cons, List.count_cons, beq_iff_eq]
          omega
  | change i value =>
      cases hi : s.held? i with
      | none => simpa only [PoolState.step, hi] using h
      | some message =>
          simp only [PoolState.step, hi]
          refine h.of_le rfl fun address => ?_
          have hcount := count_hold hi (some { message with value }) address
          simp only [count_addressOf_some] at hcount
          omega
  | swap i j =>
      cases hi : s.held? i with
      | none => simpa only [PoolState.step, hi] using h
      | some message =>
          cases hj : s.held? j with
          | none => simpa only [PoolState.step, hi, hj] using h
          | some message' =>
              simp only [PoolState.step, hi, hj]
              have hj' : (s.hold i (some message')).held? j = some message' := by
                by_cases hne : j = i
                · rw [hne]
                  exact held_hold_self hi _
                · rw [held_hold_ne hne, hj]
              refine h.of_le rfl fun address => ?_
              have hfirst := count_hold hi (some message') address
              have hsecond := count_hold hj' (some message) address
              omega
  | replace i value =>
      cases hi : s.held? i with
      | none => simpa only [PoolState.step, hi] using h
      | some message =>
          simp only [PoolState.step, hi]
          apply h.of_fresh rfl
          intro address
          have hcount := count_hold hi (some ⟨s.created, value⟩) address
          simp only [count_addressOf_some] at hcount
          show (s.hold i (some ⟨s.created, value⟩)).places.count address ≤ _
          omega
  | drop i =>
      cases hi : s.held? i with
      | none => simpa only [PoolState.step, hi] using h
      | some message =>
          simp only [PoolState.step, hi]
          refine h.of_le rfl fun address => ?_
          have hcount := count_hold hi none address
          rw [count_places] at hcount ⊢
          simp only [hold, List.flatMap_append, List.flatMap_singleton, List.count_append,
            count_addressOf_none] at hcount ⊢
          omega
  | returnMessage value =>
      apply h.of_fresh rfl
      intro address
      rw [count_places, count_places]
      simp only [PoolState.step, List.flatMap_append, List.flatMap_singleton, List.count_append,
        count_addressOf_some]
      omega
  | complete k =>
      cases hk : s.returning[k]?.join with
      | none => simpa only [PoolState.step, hk] using h
      | some message =>
          simp only [PoolState.step, hk]
          refine h.of_le rfl fun address => ?_
          have hcount := count_returning (Option.join_eq_some_iff.mp hk) address
          rw [count_addressOf_some] at hcount
          rw [count_places, count_places]
          simp only [MessagePool.returnMessage]
          split_ifs
          · simp only [List.map_append, List.count_append, List.map_singleton,
              List.count_singleton, beq_iff_eq]
            omega
          · omega
  | abort k =>
      refine h.of_le rfl fun address => ?_
      rw [count_places, count_places]
      simp only [PoolState.step]
      cases hk : s.returning[k]? with
      | none =>
          have hsame : s.returning.set k none = s.returning :=
            List.set_eq_of_length_le (List.getElem?_eq_none_iff.mp hk)
          simp only [hsame, Nat.le_refl]
      | some task =>
          have hcount := count_returning hk address
          omega

/-- Whatever is in the pool is the default message, and so was what was handed
out; the pool is not too large. -/
structure Clean (s : PoolState T) : Prop where
  pooled : ∀ message ∈ s.pool.pool, message.value = default
  handedOut : ∀ value ∈ s.handedOut, value = default
  bounded : s.pool.pool.length ≤ s.pool.maxSize

/-- Returning a message whose type can be reset. -/
theorem Clean.returnMessage (hreset : ∀ value : T, MessagePool.resetMessage value = default)
    (h : s.Clean) (message : Pooled T) (returning : List (Option (Pooled T))) :
    Clean { s with pool := s.pool.returnMessage message, returning } := by
  rw [MessagePool.returnMessage]
  split_ifs with hroom
  · refine ⟨fun other hother => ?_, h.handedOut, ?_⟩
    · rcases List.mem_append.mp hother with hold | hnew
      · exact h.pooled other hold
      · obtain rfl := List.mem_singleton.mp hnew
        exact hreset message.value
    · simp only [List.length_append, List.length_singleton]
      omega
  · exact ⟨h.pooled, h.handedOut, h.bounded⟩

/-- **Step lemma.**  Only `get` and the tasks touch the pool. -/
theorem Clean.step (hreset : ∀ value : T, MessagePool.resetMessage value = default)
    (h : s.Clean) (label : PoolLabel T) : (s.step label).Clean := by
  have hframe : ∀ holders returning created,
      Clean { s with holders, returning, created } := fun _ _ _ =>
    ⟨h.pooled, h.handedOut, h.bounded⟩
  cases label with
  | get =>
      -- the first object of the pool, or a new one
      have hgiven : (s.pool.get s.created).1.value = default ∧
          (∀ message ∈ (s.pool.get s.created).2.pool, message.value = default) ∧
          (s.pool.get s.created).2.pool.length ≤ (s.pool.get s.created).2.maxSize := by
        have hpooled := h.pooled
        have hbounded := h.bounded
        rw [MessagePool.get]
        cases hpool : s.pool.pool with
        | nil =>
            refine ⟨rfl, ?_, ?_⟩
            · rw [hpool]
              rintro message ⟨⟩
            · rw [hpool]
              exact Nat.zero_le _
        | cons message pool =>
            rw [hpool] at hpooled hbounded
            exact ⟨hpooled message List.mem_cons_self,
              fun other hother => hpooled other (List.mem_cons_of_mem message hother),
              Nat.le_of_succ_le hbounded⟩
      refine ⟨hgiven.2.1, fun value hvalue => ?_, hgiven.2.2⟩
      rcases List.mem_append.mp hvalue with hold | hnew
      · exact h.handedOut value hold
      · rw [List.mem_singleton.mp hnew]
        exact hgiven.1
  | complete k =>
      simp only [PoolState.step]
      split
      · exact h.returnMessage hreset _ _
      · exact h
  | returnMessage value => exact hframe _ _ _
  | abort k => exact hframe _ _ _
  | _ =>
      -- what holders do with the objects they have
      simp only [PoolState.step]
      split
      · exact hframe _ _ _
      · exact h

/-- A pool whose objects can be reset keeps its promises in every run. -/
theorem sound_always (hreset : ∀ value : T, MessagePool.resetMessage value = default)
    (maxSize : Nat) (labels : List (PoolLabel T)) : Always step Sound (start maxSize) labels := by
  have hunique : (start maxSize : PoolState T).Unique := fun address => by
    simp [places, start, MessagePool.new]
  have hclean : (start maxSize : PoolState T).Clean := by
    refine ⟨?_, ?_, Nat.zero_le maxSize⟩
    · rintro message ⟨⟩
    · rintro value ⟨⟩
  have halways : Always step (fun s : PoolState T => s.Unique ∧ s.Clean) (start maxSize) labels :=
    Always.of_along (C := fun _ _ => True) ⟨hunique, hclean⟩ (Along.of_forall fun _ _ => trivial)
      fun s label h _ => ⟨h.1.step label, h.2.step hreset label⟩
  refine halways.mono fun s h => ⟨h.2.handedOut, ?_, ?_, h.2.bounded⟩
  · intro i j message message' hi hj hsame
    exact h.1.holder_eq hi hj hsame
  · intro i message hi
    exact h.1.apart hi

/-- **Pooled messages carry nothing over.**  Whatever is done with the messages and
whenever they come back, each one that is handed out is the default message, no
object is in two places, and the pool is never larger than allowed. -/
theorem carries_nothing_over (maxSize : Nat) (labels : List (PoolLabel OptimizedMessage)) :
    Always step Sound (start maxSize) labels :=
  sound_always (fun _ => rfl) maxSize labels

end PoolState

end Rafka
