/-
Rafka/TwoPhase.lean

Concurrent calls that lock what they touch.

Some data is divided into parts, each under a fair reader-writer lock.  A call
locks the parts that it needs, one after the other, reads and writes them, and
gives all its guards back when it returns (`LockedCall`).  Many such calls run at
the same time, one step of one call after a step of another, in any order
(`LockedSystem`).  A guard is granted when no other call has one that conflicts
and no call asked for the same lock earlier.

If every call touches only what it has locked, and locks parts in the order of a
rank (`Guarded`), then:

* the calls that have returned had the replies and the effect that they have one
  at a time, in the order in which they returned (`serializes_always`), and so
  those of any object that the data represents (`linearizable_always`);
* as long as a call has not returned, one of the calls can go on
  (`Ordered.canStep`), and the calls do not go on for ever (`schedule_ends`).
-/
import Rafka.Cascade
import Rafka.Lock
import Rafka.Trace
import Mathlib.Logic.Function.Basic
import Mathlib.Data.Finset.Max

namespace Rafka

/-! ### Calls -/

/-- A call on data whose part `V l` is under the lock `l`. -/
inductive LockedCall {L : Type} (V : L → Type) (R : Type) : Type
  | lock (l : L) (m : Mode) (next : LockedCall V R)
  | read (l : L) (next : V l → LockedCall V R)
  | write (l : L) (v : V l) (next : LockedCall V R)
  | ret (reply : R)

namespace LockedCall

variable {L : Type} {V : L → Type} {R : Type}

/-- With the guards `held`, the call touches only what it has locked, and locks what has
a higher rank than all that it has locked before. -/
def Guarded (rank : L → ℕ) : List (L × Mode) → LockedCall V R → Prop
  | held, .lock l m next => (∀ g ∈ held, rank g.1 < rank l) ∧ next.Guarded rank ((l, m) :: held)
  | held, .read l next => (∃ m, (l, m) ∈ held) ∧ ∀ v, (next v).Guarded rank held
  | held, .write l _ next => (l, .write) ∈ held ∧ next.Guarded rank held
  | _, .ret _ => True

variable [DecidableEq L]

/-- What the call does if nothing else happens. -/
def run : LockedCall V R → (∀ l, V l) → R × ∀ l, V l
  | .lock _ _ next, data => next.run data
  | .read l next, data => (next (data l)).run data
  | .write l v next, data => next.run (Function.update data l v)
  | .ret reply, data => (reply, data)

end LockedCall

/-- What calls are answered one after the other, and what they leave. -/
def answers {A C R : Type} (answer : A → C → R × A) (a : A) (calls : List C) : List R × A :=
  calls.foldl (fun s call => (s.1 ++ [(answer s.2 call).1], (answer s.2 call).2)) ([], a)

theorem answers_concat {A C R : Type} (answer : A → C → R × A) (a : A) (calls : List C)
    (call : C) :
    answers answer a (calls ++ [call]) =
      ((answers answer a calls).1 ++ [(answer (answers answer a calls).2 call).1],
        (answer (answers answer a calls).2 call).2) := by
  rw [answers, List.foldl_append]
  rfl

/-! ### Systems of calls -/

/-- Where a call is: before its next step, in the queue of a lock, or at its end. -/
inductive CallPhase {L : Type} (V : L → Type) (R : Type) : Type
  | running (rest : LockedCall V R)
  | waiting (l : L) (m : Mode) (next : LockedCall V R)
  | answered (reply : R)

/-- What is left of the call. -/
def CallPhase.rest {L : Type} {V : L → Type} {R : Type} : CallPhase V R → LockedCall V R
  | .running rest => rest
  | .waiting l m next => .lock l m next
  | .answered reply => .ret reply

/-- A call that is under way, with its guards. -/
structure LockedTask {L : Type} (C : Type) (V : L → Type) (R : Type) where
  call : C
  phase : CallPhase V R
  held : List (L × Mode)

/-- A call that has returned. -/
structure ServedCall (C R : Type) where
  task : ℕ
  call : C
  reply : R

/-- The data, the calls in the order in which they were made, the waiting ones in the
order in which they asked, and a record of those that returned, in that order. -/
structure LockedSystem {L : Type} (C : Type) (V : L → Type) (R : Type) where
  data : ∀ l, V l
  tasks : List (LockedTask C V R)
  queue : List ℕ
  served : List (ServedCall C R)

/-- A call is made, or a call does its next step. -/
inductive SystemLabel (C : Type)
  | call (call : C)
  | task (i : ℕ)

variable {L C : Type} {V : L → Type} {R : Type} [DecidableEq L]

namespace LockedTask

/-- The call has a guard with which one of the mode `m` conflicts. -/
def conflicts (t : LockedTask C V R) (l : L) (m : Mode) : Bool :=
  t.held.any fun g => g.1 = l && !(g.2 = .read && m = .read)

/-- The call is in the queue of the lock. -/
def waitsFor (t : LockedTask C V R) (l : L) : Bool :=
  match t.phase with
  | .waiting l' _ _ => l' = l
  | _ => false

end LockedTask

namespace LockedSystem

/-- No call has been made. -/
def init (start : ∀ l, V l) : LockedSystem C V R := ⟨start, [], [], []⟩

/-- Nobody has asked for the lock before the call `i`, and nobody has a guard that
conflicts. -/
def grants (s : LockedSystem C V R) (i : ℕ) (l : L) (m : Mode) : Bool :=
  ((s.queue.takeWhile fun j => j ≠ i).all fun j => s.tasks[j]?.all fun t => !t.waitsFor l) &&
    s.tasks.all fun t => !t.conflicts l m

/-- The next step of the call `i`. -/
def stepTask (s : LockedSystem C V R) (i : ℕ) (t : LockedTask C V R) : LockedSystem C V R :=
  match t.phase with
  | .running (.lock l m next) =>
      { s with
        tasks := s.tasks.set i { t with phase := .waiting l m next }
        queue := s.queue ++ [i] }
  | .running (.read l next) =>
      { s with tasks := s.tasks.set i { t with phase := .running (next (s.data l)) } }
  | .running (.write l v next) =>
      { s with
        data := Function.update s.data l v
        tasks := s.tasks.set i { t with phase := .running next } }
  | .running (.ret reply) =>
      { s with
        tasks := s.tasks.set i { t with phase := .answered reply, held := [] }
        served := s.served ++ [⟨i, t.call, reply⟩] }
  | .waiting l m next =>
      if s.grants i l m then
        { s with
          tasks := s.tasks.set i { t with phase := .running next, held := (l, m) :: t.held }
          queue := s.queue.erase i }
      else s
  | .answered _ => s

/-- One step; `body` is what a call does. -/
def step (body : C → LockedCall V R) (s : LockedSystem C V R) :
    SystemLabel C → LockedSystem C V R
  | .call call => { s with tasks := s.tasks ++ [⟨call, .running (body call), []⟩] }
  | .task i =>
      match s.tasks[i]? with
      | some t => s.stepTask i t
      | none => s

/-- The call `i` can go on. -/
def canStep (s : LockedSystem C V R) (i : ℕ) : Bool :=
  match s.tasks[i]?.map LockedTask.phase with
  | some (.running _) => true
  | some (.waiting l m _) => s.grants i l m
  | _ => false

/-! ### Guards -/

/-- Calls are as `Guarded` says with what they hold, two calls have no guards that
conflict, and those that wait are in the queue. -/
structure Ordered (rank : L → ℕ) (s : LockedSystem C V R) : Prop where
  guarded : ∀ (i : ℕ) (t : LockedTask C V R), s.tasks[i]? = some t →
    t.phase.rest.Guarded rank t.held
  freed : ∀ (i : ℕ) (t : LockedTask C V R) (reply : R), s.tasks[i]? = some t →
    t.phase = .answered reply → t.held = []
  exclusive : ∀ (i j : ℕ) (t u : LockedTask C V R), s.tasks[i]? = some t → s.tasks[j]? = some u →
    i ≠ j → ∀ l m, (l, .write) ∈ t.held → (l, m) ∉ u.held
  queued : ∀ i, i ∈ s.queue ↔
    ∃ t l m next, s.tasks[i]? = some t ∧ t.phase = .waiting l m next
  nodup : s.queue.Nodup

variable {body : C → LockedCall V R} {rank : L → ℕ} {s : LockedSystem C V R} {i : ℕ} {t : LockedTask C V R}
variable {l : L} {m : Mode} {next : LockedCall V R}

theorem waitsFor_iff : t.waitsFor l = true ↔ ∃ m next, t.phase = .waiting l m next := by
  unfold LockedTask.waitsFor
  cases t.phase with
  | waiting l' m next =>
      rw [decide_eq_true_eq]
      constructor
      · rintro rfl
        exact ⟨m, next, rfl⟩
      · rintro ⟨m', next', ⟨⟩⟩
        rfl
  | running rest => exact iff_of_false Bool.false_ne_true (by rintro ⟨m, next, ⟨⟩⟩)
  | answered reply => exact iff_of_false Bool.false_ne_true (by rintro ⟨m, next, ⟨⟩⟩)

theorem mem_of_conflicts : t.conflicts l m = true ↔
    ∃ m', (l, m') ∈ t.held ∧ ¬ (m' = .read ∧ m = .read) := by
  rw [LockedTask.conflicts, List.any_eq_true]
  constructor
  · rintro ⟨⟨l', m'⟩, hmem, h⟩
    simp only [Bool.and_eq_true, decide_eq_true_eq, Bool.not_eq_true', Bool.and_eq_false_iff,
      decide_eq_false_iff_not] at h
    obtain ⟨rfl, hmode⟩ := h
    refine ⟨m', hmem, ?_⟩
    rintro ⟨hm', hm⟩
    rcases hmode with hmode | hmode
    · exact hmode hm'
    · exact hmode hm
  · rintro ⟨m', hmem, hmode⟩
    refine ⟨(l, m'), hmem, ?_⟩
    by_cases hm' : m' = .read
    · have hm : m ≠ .read := fun hm => hmode ⟨hm', hm⟩
      simp [hm]
    · simp [hm']

/-- Who gets a guard is alone with it. -/
theorem not_mem_of_grants (h : s.grants i l m = true) {j : ℕ} {u : LockedTask C V R}
    (hj : s.tasks[j]? = some u) {m' : Mode} (hmode : m' = .write ∨ m = .write) :
    (l, m') ∉ u.held := by
  intro hmem
  have hfree : u.conflicts l m = false := by
    have hall := (Bool.and_eq_true_iff.mp h).2
    simpa using List.all_eq_true.mp hall u (List.mem_of_getElem? hj)
  have hconflict : u.conflicts l m = true := by
    apply mem_of_conflicts.mpr
    refine ⟨m', hmem, ?_⟩
    rintro ⟨rfl, rfl⟩
    rcases hmode with h | h <;> cases h
  rw [hfree] at hconflict
  cases hconflict

omit [DecidableEq L] in
/-- The call is in the queue if it waits. -/
theorem Ordered.mem_queue_iff (h : s.Ordered rank) (hi : s.tasks[i]? = some t) :
    i ∈ s.queue ↔ ∃ l m next, t.phase = .waiting l m next := by
  rw [h.queued i, hi]
  constructor
  · rintro ⟨u, l, m, next, hu, hwaiting⟩
    cases hu
    exact ⟨l, m, next, hwaiting⟩
  · rintro ⟨l, m, next, hwaiting⟩
    exact ⟨t, l, m, next, rfl, hwaiting⟩

omit [DecidableEq L] in
/-- A task has guards that conflict with none of the others afterwards, and is in the queue
if it waits. -/
theorem Ordered.set (h : s.Ordered rank) (hi : s.tasks[i]? = some t)
    {phase : CallPhase V R} {held : List (L × Mode)} (hguarded : phase.rest.Guarded rank held)
    (hfreed : ∀ reply, phase = .answered reply → held = [])
    (hexclusive : ∀ (j : ℕ) (u : LockedTask C V R), j ≠ i → s.tasks[j]? = some u → ∀ l m,
      ((l, .write) ∈ held → (l, m) ∉ u.held) ∧ ((l, .write) ∈ u.held → (l, m) ∉ held))
    {data : ∀ l, V l} {queue : List ℕ} {served : List (ServedCall C R)}
    (hqueued : i ∈ queue ↔ ∃ l m next, phase = .waiting l m next)
    (hothers : ∀ j, j ≠ i → (j ∈ queue ↔ j ∈ s.queue)) (hnodup : queue.Nodup) :
    Ordered rank ⟨data, s.tasks.set i ⟨t.call, phase, held⟩, queue, served⟩ := by
  have hlt := (List.getElem?_eq_some_iff.mp hi).1
  refine ⟨?_, ?_, ?_, ?_, hnodup⟩
  · intro j u hj
    rcases getElem?_set_cases hj with ⟨-, rfl⟩ | ⟨-, hold⟩
    · exact hguarded
    · exact h.guarded j u hold
  · intro j u reply hj hu
    rcases getElem?_set_cases hj with ⟨-, rfl⟩ | ⟨-, hold⟩
    · exact hfreed reply hu
    · exact h.freed j u reply hold hu
  · intro j k u v hj hk hne l m hwrite hmem
    rcases getElem?_set_cases hj with ⟨rfl, rfl⟩ | ⟨hji, hold⟩
    · rcases getElem?_set_cases hk with ⟨rfl, -⟩ | ⟨hki, hold'⟩
      · exact hne rfl
      · exact (hexclusive k v hki hold' l m).1 hwrite hmem
    · rcases getElem?_set_cases hk with ⟨rfl, rfl⟩ | ⟨-, hold'⟩
      · exact (hexclusive j u hji hold l m).2 hwrite hmem
      · exact h.exclusive j k u v hold hold' hne l m hwrite hmem
  · intro j
    by_cases hj : j = i
    · subst hj
      rw [List.getElem?_set_self hlt, hqueued]
      constructor
      · rintro ⟨l, m, next, hwaiting⟩
        exact ⟨_, l, m, next, rfl, hwaiting⟩
      · rintro ⟨u, l, m, next, hu, hwaiting⟩
        cases hu
        exact ⟨l, m, next, hwaiting⟩
    · rw [List.getElem?_set_ne (Ne.symm hj), hothers j hj, h.queued j]

theorem Ordered.stepTask (h : s.Ordered rank) (hi : s.tasks[i]? = some t) :
    (s.stepTask i t).Ordered rank := by
  have hguarded := h.guarded i t hi
  -- as long as the call keeps the guards that it has
  have hkept : ∀ (j : ℕ) (u : LockedTask C V R), j ≠ i → s.tasks[j]? = some u → ∀ l m,
      ((l, .write) ∈ t.held → (l, m) ∉ u.held) ∧ ((l, .write) ∈ u.held → (l, m) ∉ t.held) :=
    fun j u hji hj l m =>
      ⟨h.exclusive i j t u hi hj (Ne.symm hji) l m, h.exclusive j i u t hj hi hji l m⟩
  have hrunning : ∀ rest, t.phase = .running rest → i ∉ s.queue := by
    intro rest hphase hmem
    obtain ⟨l, m, next, hwaiting⟩ := (h.mem_queue_iff hi).mp hmem
    rw [hphase] at hwaiting
    cases hwaiting
  unfold LockedSystem.stepTask
  split
  · rename_i l m next hphase
    rw [hphase] at hguarded
    have hnot := hrunning _ hphase
    refine h.set hi ?_ ?_ hkept ?_ ?_ ?_
    · exact hguarded
    · rintro reply ⟨⟩
    · exact iff_of_true (List.mem_append_right _ List.mem_cons_self) ⟨l, m, next, rfl⟩
    · intro j hj
      simp [hj]
    · exact h.nodup.append (List.nodup_singleton i) (by simpa using hnot)
  · rename_i l next hphase
    rw [hphase] at hguarded
    refine h.set hi ?_ ?_ hkept ?_ ?_ h.nodup
    · exact hguarded.2 (s.data l)
    · rintro reply ⟨⟩
    · exact iff_of_false (hrunning _ hphase) (by rintro ⟨l, m, next, ⟨⟩⟩)
    · exact fun j _ => Iff.rfl
  · rename_i l v next hphase
    rw [hphase] at hguarded
    refine h.set hi ?_ ?_ hkept ?_ ?_ h.nodup
    · exact hguarded.2
    · rintro reply ⟨⟩
    · exact iff_of_false (hrunning _ hphase) (by rintro ⟨l, m, next, ⟨⟩⟩)
    · exact fun j _ => Iff.rfl
  · -- the guards are given back
    rename_i reply hphase
    refine h.set hi ?_ ?_ ?_ ?_ ?_ h.nodup
    · trivial
    · exact fun _ _ => rfl
    · exact fun _ _ _ _ _ _ => ⟨fun hwrite => absurd hwrite List.not_mem_nil,
        fun _ => List.not_mem_nil⟩
    · exact iff_of_false (hrunning _ hphase) (by rintro ⟨l, m, next, ⟨⟩⟩)
    · exact fun j _ => Iff.rfl
  · rename_i l m next hphase
    rw [hphase] at hguarded
    split
    · rename_i hgrants
      refine h.set hi ?_ ?_ ?_ ?_ ?_ (h.nodup.erase i)
      · exact hguarded.2
      · rintro reply ⟨⟩
      · -- the new guard conflicts with none
        intro j u hji hj l' m'
        obtain ⟨hown, hother⟩ := hkept j u hji hj l' m'
        constructor
        · intro hwrite
          rcases List.mem_cons.mp hwrite with hnew | hwrite
          · cases hnew
            exact not_mem_of_grants hgrants hj (.inr rfl)
          · exact hown hwrite
        · intro hwrite hmem
          rcases List.mem_cons.mp hmem with hnew | hmem
          · cases hnew
            exact not_mem_of_grants hgrants hj (.inl rfl) hwrite
          · exact hother hwrite hmem
      · exact iff_of_false h.nodup.not_mem_erase (by rintro ⟨l, m, next, ⟨⟩⟩)
      · exact fun j hj => List.mem_erase_of_ne hj
    · exact h
  · exact h

theorem Ordered.call (h : s.Ordered rank) {call : C} (hcall : (body call).Guarded rank []) :
    (s.step body (.call call)).Ordered rank := by
  refine ⟨?_, ?_, ?_, ?_, h.nodup⟩
  · intro j u hj
    rcases getElem?_concat_cases hj with hold | ⟨-, rfl⟩
    · exact h.guarded j u hold
    · exact hcall
  · intro j u reply hj hu
    rcases getElem?_concat_cases hj with hold | ⟨-, rfl⟩
    · exact h.freed j u reply hold hu
    · rfl
  · intro j k u v hj hk hne l m hwrite hmem
    rcases getElem?_concat_cases hj with hold | ⟨-, rfl⟩
    · rcases getElem?_concat_cases hk with hold' | ⟨-, rfl⟩
      · exact h.exclusive j k u v hold hold' hne l m hwrite hmem
      · cases hmem
    · cases hwrite
  · intro j
    refine (h.queued j).trans ?_
    constructor
    · rintro ⟨u, l, m, next, hu, hwaiting⟩
      refine ⟨u, l, m, next, ?_, hwaiting⟩
      show (s.tasks ++ [_])[j]? = some u
      rw [List.getElem?_append_left (List.getElem?_eq_some_iff.mp hu).1]
      exact hu
    · rintro ⟨u, l, m, next, hu, hwaiting⟩
      rcases getElem?_concat_cases hu with hold | ⟨-, rfl⟩
      · exact ⟨u, l, m, next, hold, hwaiting⟩
      · cases hwaiting

/-! ### The order of the calls that have returned -/

/-- What the call `t` sees: what it has locked for writing is as it is, the rest is
`data`. -/
def overlay (held : List (L × Mode)) (now data : ∀ l, V l) : ∀ l, V l :=
  fun l => if (l, .write) ∈ held then now l else data l

/-- The data after the calls that have returned, one after the other. -/
def committed (body : C → LockedCall V R) (start : ∀ l, V l) (s : LockedSystem C V R) :
    ∀ l, V l :=
  (answers (fun data call => (body call).run data) start (s.served.map ServedCall.call)).2

/-- The calls that have returned have the replies and the effect that they have one after
the other.  The others are where they would be if they had begun now, on any data that
agrees on what they have locked. -/
structure Serializes (body : C → LockedCall V R) (start : ∀ l, V l) (s : LockedSystem C V R) :
    Prop where
  replies : (answers (fun data call => (body call).run data) start
    (s.served.map ServedCall.call)).1 = s.served.map ServedCall.reply
  settled : ∀ l, (∀ (i : ℕ) (t : LockedTask C V R), s.tasks[i]? = some t → (l, .write) ∉ t.held) →
    s.data l = s.committed body start l
  underway : ∀ (i : ℕ) (t : LockedTask C V R), s.tasks[i]? = some t →
    (∀ reply, t.phase ≠ .answered reply) →
    ∀ data, (∀ g ∈ t.held, data g.1 = s.committed body start g.1) →
      (body t.call).run data = t.phase.rest.run (overlay t.held s.data data)
  served : ∀ (i : ℕ) (call : C) (reply : R), ⟨i, call, reply⟩ ∈ s.served ↔
    ∃ t, s.tasks[i]? = some t ∧ t.call = call ∧ t.phase = .answered reply
  once : (s.served.map ServedCall.task).Nodup

variable {start : ∀ l, V l}

/-- What no call has locked for writing is what the calls that returned have left. -/
theorem Serializes.data_eq (hs : s.Serializes body start) (hi : s.tasks[i]? = some t) {l : L}
    (hown : (l, .write) ∉ t.held)
    (hothers : ∀ (j : ℕ) (u : LockedTask C V R), j ≠ i → s.tasks[j]? = some u →
      (l, .write) ∉ u.held) : s.data l = s.committed body start l := by
  apply hs.settled l
  intro j u hj
  by_cases hji : j = i
  · subst hji
    rw [hi] at hj
    cases hj
    exact hown
  · exact hothers j u hji hj

/-- A call sees what it has locked as it is. -/
theorem overlay_eq_data (h : s.Ordered rank) (hs : s.Serializes body start) (hi : s.tasks[i]? = some t)
    {data : ∀ l, V l} (hdata : ∀ g ∈ t.held, data g.1 = s.committed body start g.1)
    (hmem : (l, m) ∈ t.held) : overlay t.held s.data data l = s.data l := by
  unfold overlay
  split
  · rfl
  · rename_i hread
    rw [hdata (l, m) hmem]
    refine (hs.data_eq hi hread fun j u hji hj hwrite => ?_).symm
    exact h.exclusive j i u t hj hi hji l m hwrite hmem

/-- What the call has locked for writing shows what it writes. -/
theorem overlay_update {held : List (L × Mode)} {now data : ∀ l, V l} {l : L} {v : V l}
    (hmem : (l, .write) ∈ held) :
    overlay held (Function.update now l v) data = Function.update (overlay held now data) l v := by
  funext l'
  by_cases hl : l' = l
  · subst hl
    rw [Function.update_self, overlay, if_pos hmem, Function.update_self]
  · rw [Function.update_of_ne hl, overlay, overlay, Function.update_of_ne hl]

/-- A new guard shows nothing new where the data are as they are. -/
theorem overlay_cons {held : List (L × Mode)} {now data : ∀ l, V l} {l : L} {m : Mode}
    (hnot : (l, .write) ∉ held) (hdata : data l = now l) :
    overlay ((l, m) :: held) now data = overlay held now data := by
  funext l'
  by_cases hl : l' = l
  · subst hl
    rw [overlay, overlay, if_neg hnot, hdata, ite_self]
  · unfold overlay
    simp [hl]

/-- A call goes on, and nothing is served.  For the others nothing changes: what is
written is not what they have locked. -/
theorem Serializes.set (hs : s.Serializes body start) (hi : s.tasks[i]? = some t)
    (hphase : ∀ reply, t.phase ≠ .answered reply) {phase : CallPhase V R}
    {held : List (L × Mode)} (hphase' : ∀ reply, phase ≠ .answered reply)
    {data : ∀ l, V l} {queue : List ℕ}
    (hsettled : ∀ l, (l, .write) ∉ held → (∀ (j : ℕ) (u : LockedTask C V R), j ≠ i →
      s.tasks[j]? = some u → (l, .write) ∉ u.held) → data l = s.committed body start l)
    (hother : ∀ (j : ℕ) (u : LockedTask C V R), j ≠ i → s.tasks[j]? = some u →
      ∀ l, (l, .write) ∈ u.held → data l = s.data l)
    (hunderway : ∀ d, (∀ g ∈ held, d g.1 = s.committed body start g.1) →
      (body t.call).run d = phase.rest.run (overlay held data d)) :
    Serializes body start ⟨data, s.tasks.set i ⟨t.call, phase, held⟩, queue, s.served⟩ := by
  have hlt := (List.getElem?_eq_some_iff.mp hi).1
  refine ⟨hs.replies, ?_, ?_, ?_, hs.once⟩
  · intro l hfree
    apply hsettled l
    · exact hfree i _ (List.getElem?_set_self hlt)
    · intro j u hji hj
      exact hfree j u (by rwa [List.getElem?_set_ne (Ne.symm hji)])
  · intro j u hj hu d hd
    rcases getElem?_set_cases hj with ⟨-, rfl⟩ | ⟨hji, hold⟩
    · exact hunderway d hd
    · have hsame : overlay u.held data d = overlay u.held s.data d := by
        funext l
        unfold overlay
        split
        · rename_i hwrite
          exact hother j u hji hold l hwrite
        · rfl
      rw [hsame]
      exact hs.underway j u hold hu d hd
  · intro j call reply
    rw [hs.served j call reply]
    by_cases hji : j = i
    · subst hji
      rw [List.getElem?_set_self hlt, hi]
      refine iff_of_false ?_ ?_
      · rintro ⟨u, hu, -, hanswered⟩
        cases hu
        exact hphase reply hanswered
      · rintro ⟨u, hu, -, hanswered⟩
        cases hu
        exact hphase' reply hanswered
    · rw [List.getElem?_set_ne (Ne.symm hji)]

/-- The call returns: it has read and written as if it had run now. -/
theorem Serializes.answer (h : s.Ordered rank) (hs : s.Serializes body start)
    (hi : s.tasks[i]? = some t) {reply : R} (hphase : t.phase = .running (.ret reply)) :
    Serializes body start
      ⟨s.data, s.tasks.set i { t with phase := .answered reply, held := [] }, s.queue,
        s.served ++ [⟨i, t.call, reply⟩]⟩ := by
  have hlt := (List.getElem?_eq_some_iff.mp hi).1
  have hrun : (body t.call).run (s.committed body start) =
      (reply, overlay t.held s.data (s.committed body start)) := by
    rw [hs.underway i t hi (by rw [hphase]; rintro reply ⟨⟩) _ fun g _ => rfl, hphase]
    rfl
  have hcommitted : committed body start
      ⟨s.data, s.tasks.set i { t with phase := .answered reply, held := [] }, s.queue,
        s.served ++ [⟨i, t.call, reply⟩]⟩ =
      overlay t.held s.data (s.committed body start) := by
    show (answers _ start ((s.served ++ [_]).map ServedCall.call)).2 = _
    rw [List.map_append, List.map_singleton, answers_concat]
    show ((body t.call).run (s.committed body start)).2 = _
    rw [hrun]
  have hserved : ∀ e ∈ s.served, e.task ≠ i := by
    rintro ⟨j, call, reply'⟩ he rfl
    obtain ⟨u, hu, -, hanswered⟩ := (hs.served j call reply').mp he
    rw [hi] at hu
    cases hu
    rw [hphase] at hanswered
    cases hanswered
  refine ⟨?_, ?_, ?_, ?_, ?_⟩
  · show (answers _ start ((s.served ++ [_]).map ServedCall.call)).1 = _
    rw [List.map_append, List.map_singleton, answers_concat, List.map_append, hs.replies]
    show _ ++ [((body t.call).run (s.committed body start)).1] = _
    rw [hrun]
    rfl
  · intro l hfree
    rw [hcommitted]
    unfold overlay
    split
    · rfl
    · rename_i hwrite
      refine hs.data_eq hi hwrite fun j u hji hj => ?_
      exact hfree j u (by rwa [List.getElem?_set_ne (Ne.symm hji)])
  · intro j u hj hu d hd
    rcases getElem?_set_cases hj with ⟨-, rfl⟩ | ⟨hji, hold⟩
    · exact absurd rfl (hu reply)
    · apply hs.underway j u hold hu d
      -- what the others have locked, the call has not written
      intro g hg
      rw [hd g hg, hcommitted]
      unfold overlay
      rw [if_neg fun hwrite => h.exclusive i j t u hi hold (Ne.symm hji) g.1 g.2 hwrite hg]
  · intro j call reply'
    rw [List.mem_append, List.mem_singleton, hs.served j call reply']
    by_cases hji : j = i
    · subst hji
      rw [List.getElem?_set_self hlt, hi]
      constructor
      · rintro (⟨u, hu, -, hanswered⟩ | heq)
        · cases hu
          rw [hphase] at hanswered
          cases hanswered
        · cases heq
          exact ⟨_, rfl, rfl, rfl⟩
      · rintro ⟨u, hu, rfl, hanswered⟩
        cases hu
        cases hanswered
        exact .inr rfl
    · rw [List.getElem?_set_ne (Ne.symm hji)]
      refine or_iff_left ?_
      intro heq
      cases heq
      exact hji rfl
  · rw [List.map_append, List.map_singleton]
    refine hs.once.append (List.nodup_singleton i) ?_
    rw [List.disjoint_singleton]
    intro hmem
    obtain ⟨e, he, htask⟩ := List.mem_map.mp hmem
    exact hserved e he htask

/-- The call asks for a lock. -/
theorem Serializes.ask (hs : s.Serializes body start) (hi : s.tasks[i]? = some t) {l : L}
    {m : Mode} {next : LockedCall V R} (hphase : t.phase = .running (.lock l m next))
    (queue : List ℕ) :
    Serializes body start
      ⟨s.data, s.tasks.set i { t with phase := .waiting l m next }, queue, s.served⟩ := by
  have hopen : ∀ reply, t.phase ≠ .answered reply := by
    rw [hphase]
    rintro reply ⟨⟩
  refine hs.set hi hopen (by rintro reply ⟨⟩) (fun _ hown hothers => hs.data_eq hi hown hothers)
    (fun _ _ _ _ _ _ => rfl) ?_
  intro d hd
  rw [hs.underway i t hi hopen d hd, hphase]
  rfl

/-- The call reads what it has locked. -/
theorem Serializes.read (h : s.Ordered rank) (hs : s.Serializes body start)
    (hi : s.tasks[i]? = some t) {l : L} {next : V l → LockedCall V R}
    (hphase : t.phase = .running (.read l next)) :
    Serializes body start
      ⟨s.data, s.tasks.set i { t with phase := .running (next (s.data l)) }, s.queue,
        s.served⟩ := by
  have hopen : ∀ reply, t.phase ≠ .answered reply := by
    rw [hphase]
    rintro reply ⟨⟩
  have hguarded := h.guarded i t hi
  rw [hphase] at hguarded
  obtain ⟨⟨m, hmem⟩, -⟩ := hguarded
  refine hs.set hi hopen (by rintro reply ⟨⟩) (fun _ hown hothers => hs.data_eq hi hown hothers)
    (fun _ _ _ _ _ _ => rfl) ?_
  intro d hd
  have hread := overlay_eq_data h hs hi hd hmem
  rw [hs.underway i t hi hopen d hd, hphase]
  show (next (overlay t.held s.data d l)).run _ = _
  rw [hread]
  rfl

/-- The call writes what it has locked. -/
theorem Serializes.write (h : s.Ordered rank) (hs : s.Serializes body start)
    (hi : s.tasks[i]? = some t) {l : L} {v : V l} {next : LockedCall V R}
    (hphase : t.phase = .running (.write l v next)) :
    Serializes body start
      ⟨Function.update s.data l v, s.tasks.set i { t with phase := .running next }, s.queue,
        s.served⟩ := by
  have hopen : ∀ reply, t.phase ≠ .answered reply := by
    rw [hphase]
    rintro reply ⟨⟩
  have hguarded := h.guarded i t hi
  rw [hphase] at hguarded
  obtain ⟨hmem, -⟩ := hguarded
  refine hs.set hi hopen (by rintro reply ⟨⟩) ?_ ?_ ?_
  · intro l' hown hothers
    have hne : l' ≠ l := by
      rintro rfl
      exact hown hmem
    rw [Function.update_of_ne hne]
    exact hs.data_eq hi hown hothers
  · intro j u hji hj l' hwrite
    have hne : l' ≠ l := by
      rintro rfl
      exact h.exclusive j i u t hj hi hji l' .write hwrite hmem
    exact Function.update_of_ne hne _ _
  · intro d hd
    rw [hs.underway i t hi hopen d hd, hphase]
    show next.run (Function.update (overlay t.held s.data d) l v) = _
    rw [← overlay_update hmem]
    rfl

/-- The call gets the lock that it has asked for. -/
theorem Serializes.grant (hs : s.Serializes body start) (hi : s.tasks[i]? = some t) {l : L}
    {m : Mode} {next : LockedCall V R} (hphase : t.phase = .waiting l m next)
    (hgrants : s.grants i l m = true) (queue : List ℕ) :
    Serializes body start
      ⟨s.data, s.tasks.set i { t with phase := .running next, held := (l, m) :: t.held }, queue,
        s.served⟩ := by
  have hopen : ∀ reply, t.phase ≠ .answered reply := by
    rw [hphase]
    rintro reply ⟨⟩
  -- nobody has written the part that the call gets
  have hnobody : ∀ (j : ℕ) (u : LockedTask C V R), s.tasks[j]? = some u → (l, .write) ∉ u.held :=
    fun j u hj => not_mem_of_grants hgrants hj (.inl rfl)
  refine hs.set hi hopen (by rintro reply ⟨⟩) ?_ (fun _ _ _ _ _ _ => rfl) ?_
  · intro l' hown
    exact hs.data_eq hi fun hmem => hown (List.mem_cons_of_mem _ hmem)
  · intro d hd
    have hcommitted : d l = s.data l :=
      (hd (l, m) List.mem_cons_self).trans (hs.settled l hnobody).symm
    rw [hs.underway i t hi hopen d fun g hg => hd g (List.mem_cons_of_mem _ hg), hphase]
    show next.run _ = next.run _
    rw [overlay_cons (hnobody i t hi) hcommitted]

/-- **Step lemma.** -/
theorem Serializes.stepTask (h : s.Ordered rank) (hs : s.Serializes body start)
    (hi : s.tasks[i]? = some t) : (s.stepTask i t).Serializes body start := by
  unfold LockedSystem.stepTask
  split
  · rename_i l m next hphase
    exact hs.ask hi hphase _
  · rename_i l next hphase
    exact hs.read h hi hphase
  · rename_i l v next hphase
    exact hs.write h hi hphase
  · rename_i reply hphase
    exact hs.answer h hi hphase
  · rename_i l m next hphase
    split
    · rename_i hgrants
      exact hs.grant hi hphase hgrants _
    · exact hs
  · exact hs

theorem Serializes.call (hs : s.Serializes body start) (call : C) :
    (s.step body (.call call)).Serializes body start := by
  refine ⟨hs.replies, ?_, ?_, ?_, hs.once⟩
  · intro l hfree
    apply hs.settled l
    intro j u hj
    apply hfree j u
    show (s.tasks ++ [_])[j]? = some u
    rw [List.getElem?_append_left (List.getElem?_eq_some_iff.mp hj).1]
    exact hj
  · intro j u hj hu d hd
    rcases getElem?_concat_cases hj with hold | ⟨-, rfl⟩
    · exact hs.underway j u hold hu d hd
    · rfl
  · intro j call' reply
    rw [show (s.step body (.call call)).served = s.served from rfl, hs.served j call' reply]
    constructor
    · rintro ⟨u, hu, hcall, hanswered⟩
      refine ⟨u, ?_, hcall, hanswered⟩
      show (s.tasks ++ [_])[j]? = some u
      rw [List.getElem?_append_left (List.getElem?_eq_some_iff.mp hu).1]
      exact hu
    · rintro ⟨u, hu, hcall, hanswered⟩
      rcases getElem?_concat_cases hu with hold | ⟨-, rfl⟩
      · exact ⟨u, hold, hcall, hanswered⟩
      · cases hanswered

/-! ### Runs -/

omit [DecidableEq L] in
theorem ordered_init : (init start : LockedSystem C V R).Ordered rank := by
  refine ⟨?_, ?_, ?_, ?_, List.nodup_nil⟩
  · rintro i t ⟨⟩
  · rintro i t reply ⟨⟩
  · rintro i j t u ⟨⟩
  · intro i
    refine iff_of_false List.not_mem_nil ?_
    rintro ⟨t, l, m, next, ⟨⟩, -⟩

theorem serializes_init : (init start : LockedSystem C V R).Serializes body start := by
  refine ⟨rfl, fun _ _ => rfl, ?_, ?_, List.nodup_nil⟩
  · rintro i t ⟨⟩
  · intro i call reply
    refine iff_of_false List.not_mem_nil ?_
    rintro ⟨t, ⟨⟩, -⟩

/-- **Strict two-phase locking serializes**: the calls that have returned had the replies
and the effect that they have one at a time. -/
theorem serializes_always (hbody : ∀ call, (body call).Guarded rank []) (start : ∀ l, V l)
    (labels : List (SystemLabel C)) :
    Always (step body) (fun s => s.Ordered rank ∧ s.Serializes body start) (init start)
      labels := by
  refine Always.of_along (C := fun _ _ => True) ⟨ordered_init, serializes_init⟩
    (Along.of_forall fun _ _ => trivial) ?_
  intro s label h _
  cases label with
  | call call => exact ⟨h.1.call (hbody call), h.2.call call⟩
  | task i =>
      simp only [step]
      split
      · rename_i t hi
        exact ⟨h.1.stepTask hi, Serializes.stepTask h.1 h.2 hi⟩
      · exact h

/-- All calls that were made have returned. -/
def AllAnswered (s : LockedSystem C V R) : Prop :=
  ∀ t ∈ s.tasks, ∃ reply, t.phase = .answered reply

/-- The calls of a system behave like those of an object of the type `A` that answers one
call after the other: those that have returned, in the order in which they did.  What no
call has locked for writing is as the object has it, and so is everything when all calls
have returned. -/
structure Linearizable {A : Type} (answer : A → C → R × A) (Represents : (∀ l, V l) → A → Prop)
    (a : A) (s : LockedSystem C V R) : Prop where
  replies : (answers answer a (s.served.map ServedCall.call)).1 = s.served.map ServedCall.reply
  state : ∃ data, Represents data (answers answer a (s.served.map ServedCall.call)).2 ∧
    ∀ l, (∀ t ∈ s.tasks, (l, .write) ∉ t.held) → s.data l = data l
  quiet : s.AllAnswered →
    Represents s.data (answers answer a (s.served.map ServedCall.call)).2
  served : ∀ (i : ℕ) (call : C) (reply : R), ⟨i, call, reply⟩ ∈ s.served ↔
    ∃ t, s.tasks[i]? = some t ∧ t.call = call ∧ t.phase = .answered reply
  once : (s.served.map ServedCall.task).Nodup

/-- One call after the other, what a call does is what the object answers. -/
theorem answers_of_represents {A : Type} {answer : A → C → R × A}
    {Represents : (∀ l, V l) → A → Prop} {a : A} (hstart : Represents start a)
    (hbody : ∀ data a call, Represents data a →
      ((body call).run data).1 = (answer a call).1 ∧
        Represents ((body call).run data).2 (answer a call).2) (calls : List C) :
    (answers (fun data call => (body call).run data) start calls).1 = (answers answer a calls).1 ∧
      Represents (answers (fun data call => (body call).run data) start calls).2
        (answers answer a calls).2 := by
  induction calls using List.reverseRecOn with
  | nil => exact ⟨rfl, hstart⟩
  | append_singleton calls call ih =>
      rw [answers_concat, answers_concat]
      obtain ⟨hreply, hstate⟩ := hbody _ _ call ih.2
      exact ⟨by rw [ih.1, hreply], hstate⟩

/-- Calls under locks are linearizable if, one at a time, they do what the object does. -/
theorem linearizable_always {A : Type} {answer : A → C → R × A}
    {Represents : (∀ l, V l) → A → Prop} {a : A} (hguarded : ∀ call, (body call).Guarded rank [])
    (hstart : Represents start a)
    (hbody : ∀ data a call, Represents data a →
      ((body call).run data).1 = (answer a call).1 ∧
        Represents ((body call).run data).2 (answer a call).2)
    (labels : List (SystemLabel C)) :
    Always (step body) (Linearizable answer Represents a) (init start) labels := by
  apply (serializes_always hguarded start labels).mono
  rintro s ⟨h, hs⟩
  obtain ⟨hreplies, hstate⟩ :=
    answers_of_represents hstart hbody (s.served.map ServedCall.call)
  refine ⟨by rw [← hreplies, hs.replies], ⟨s.committed body start, hstate, ?_⟩, ?_, hs.served,
    hs.once⟩
  · intro l hfree
    apply hs.settled l
    intro i t hi
    exact hfree t (List.mem_of_getElem? hi)
  · -- nobody has a guard any more
    intro hall
    have hsame : s.data = s.committed body start := by
      funext l
      apply hs.settled l
      intro i t hi
      obtain ⟨reply, hanswered⟩ := hall t (List.mem_of_getElem? hi)
      rw [h.freed i t reply hi hanswered]
      exact List.not_mem_nil
    rw [hsame]
    exact hstate

/-- Calls return in an order that they keep. -/
theorem served_prefix (body : C → LockedCall V R) (s : LockedSystem C V R)
    (labels : List (SystemLabel C)) : s.served <+: (labels.foldl (step body) s).served := by
  induction labels generalizing s with
  | nil => exact List.prefix_rfl
  | cons label labels ih =>
      refine List.IsPrefix.trans ?_ (ih (s.step body label))
      cases label with
      | call call => exact List.prefix_rfl
      | task i =>
          simp only [step]
          split
          · unfold LockedSystem.stepTask
            split
            · exact List.prefix_rfl
            · exact List.prefix_rfl
            · exact List.prefix_rfl
            · exact List.prefix_append _ _
            · split <;> exact List.prefix_rfl
            · exact List.prefix_rfl
          · exact List.prefix_rfl

/-! ### Calls return -/

/-- The rank of the lock that the call waits for. -/
def waitRank (rank : L → ℕ) (s : LockedSystem C V R) (i : ℕ) : ℕ :=
  match s.tasks[i]?.map LockedTask.phase with
  | some (.waiting l _ _) => rank l
  | _ => 0

/-- Of the calls that wait for a lock, the first that has asked gets it if nobody has a guard
in its way. -/
theorem exists_first {k : ℕ} (hk : k ∈ s.queue) (ht : s.tasks[k]? = some t)
    (hwaiting : t.phase = .waiting l m next) :
    ∃ i m next, s.tasks[i]?.map LockedTask.phase = some (.waiting l m next) ∧
      ((∀ u ∈ s.tasks, u.conflicts l m = false) → s.grants i l m = true) := by
  have hasks : ∃ j ∈ s.queue, s.tasks[j]?.any (fun u => u.waitsFor l) = true := by
    refine ⟨k, hk, ?_⟩
    rw [ht]
    exact waitsFor_iff.mpr ⟨m, next, hwaiting⟩
  obtain ⟨i, hfirst⟩ := Option.isSome_iff_exists.mp (List.find?_isSome.mpr hasks)
  obtain ⟨hi, before, after, hsplit, hbefore⟩ := List.find?_eq_some_iff_append.mp hfirst
  obtain ⟨u, hu, hasked⟩ := (Option.any_eq_true _ _).mp hi
  obtain ⟨m', next', hwaiting'⟩ := waitsFor_iff.mp hasked
  refine ⟨i, m', next', by rw [hu, Option.map_some, hwaiting'], fun hfree => ?_⟩
  apply Bool.and_eq_true_iff.mpr
  constructor
  · -- those before it wait for other locks
    have hearlier : (s.queue.takeWhile fun j => j ≠ i) = before := by
      have hne : ∀ j ∈ before, decide (j ≠ i) = true := by
        intro j hj
        rw [decide_eq_true_eq]
        rintro rfl
        exact absurd hi (by simpa using hbefore j hj)
      rw [hsplit, List.takeWhile_append_of_pos hne, List.takeWhile_cons]
      simp
    rw [hearlier, List.all_eq_true]
    intro j hj
    have hnot := hbefore j hj
    cases hj' : s.tasks[j]? with
    | none => rfl
    | some v =>
        rw [hj'] at hnot
        exact hnot
  · rw [List.all_eq_true]
    intro v hv
    rw [hfree v hv]
    rfl

/-- **No deadlock**: unless all calls have returned, one of them can go on. -/
theorem Ordered.canStep (h : s.Ordered rank) (hopen : ¬ s.AllAnswered) :
    ∃ i, s.canStep i = true := by
  by_contra hstuck
  push Not at hstuck
  -- all calls that have not returned wait
  have hwaits : ∀ (i : ℕ) (t : LockedTask C V R), s.tasks[i]? = some t →
      (∃ reply, t.phase = .answered reply) ∨ ∃ l m next, t.phase = .waiting l m next := by
    intro i t hi
    cases hphase : t.phase with
    | running rest =>
        refine absurd ?_ (hstuck i)
        rw [LockedSystem.canStep, hi, Option.map_some, hphase]
    | waiting l m next => exact .inr ⟨l, m, next, rfl⟩
    | answered reply => exact .inl ⟨reply, rfl⟩
  have hqueue : s.queue ≠ [] := by
    intro hempty
    apply hopen
    intro t hmem
    obtain ⟨i, hi⟩ := List.getElem?_of_mem hmem
    rcases hwaits i t hi with hanswered | ⟨l, m, next, hwaiting⟩
    · exact hanswered
    · have hin := (h.queued i).mpr ⟨t, l, m, next, hi, hwaiting⟩
      rw [hempty] at hin
      cases hin
  -- one of those that wait for the lock of the highest rank
  obtain ⟨k, hk, hmax⟩ := Finset.exists_max_image s.queue.toFinset (s.waitRank rank)
    (List.toFinset_nonempty_iff _ |>.mpr hqueue)
  obtain ⟨t, l, m, next, hk', hwaiting⟩ := (h.queued k).mp (List.mem_toFinset.mp hk)
  obtain ⟨i, m', next', hi, hgrants⟩ := exists_first (List.mem_toFinset.mp hk) hk' hwaiting
  apply hstuck i
  rw [LockedSystem.canStep, hi]
  apply hgrants
  -- who holds the lock would wait for one of a higher rank
  intro v hv
  obtain ⟨j, hj⟩ := List.getElem?_of_mem hv
  by_contra hconflict
  rw [Bool.not_eq_false] at hconflict
  obtain ⟨m'', hmem, -⟩ := mem_of_conflicts.mp hconflict
  rcases hwaits j v hj with ⟨reply, hanswered⟩ | ⟨l', m₁, next₁, hwaiting₁⟩
  · rw [h.freed j v reply hj hanswered] at hmem
    cases hmem
  · have hguarded := h.guarded j v hj
    rw [hwaiting₁] at hguarded
    have hlt : rank l < rank l' := hguarded.1 (l, m'') hmem
    have hin : j ∈ s.queue := (h.queued j).mpr ⟨v, l', m₁, next₁, hj, hwaiting₁⟩
    have hle := hmax j (List.mem_toFinset.mpr hin)
    rw [waitRank, waitRank, hj, hk', Option.map_some, Option.map_some, hwaiting₁, hwaiting] at hle
    exact absurd hlt (Nat.not_lt.mpr hle)

/-- The phases of a call come one after the other. -/
inductive Before : CallPhase V R → CallPhase V R → Prop
  | lock (l : L) (m : Mode) (next : LockedCall V R) :
      Before (.waiting l m next) (.running (.lock l m next))
  | grant (l : L) (m : Mode) (next : LockedCall V R) :
      Before (.running next) (.waiting l m next)
  | read (l : L) (next : V l → LockedCall V R) (v : V l) :
      Before (.running (next v)) (.running (.read l next))
  | write (l : L) (v : V l) (next : LockedCall V R) :
      Before (.running next) (.running (.write l v next))
  | ret (reply : R) : Before (.answered reply) (.running (.ret reply))

omit [DecidableEq L] in
/-- A call has an end. -/
theorem wellFounded_before : WellFounded (Before (V := V) (R := R)) := by
  have hanswered : ∀ reply, Acc (Before (V := V) (R := R)) (.answered reply) := by
    intro reply
    constructor
    rintro phase ⟨⟩
  have hrunning : ∀ rest, Acc (Before (V := V) (R := R)) (.running rest) := by
    intro rest
    induction rest with
    | lock l m next ih =>
        constructor
        rintro phase ⟨⟩
        constructor
        rintro phase ⟨⟩
        exact ih
    | read l next ih =>
        constructor
        rintro phase ⟨⟩
        exact ih _
    | write l v next ih =>
        constructor
        rintro phase ⟨⟩
        exact ih
    | ret reply =>
        constructor
        rintro phase ⟨⟩
        exact hanswered reply
  constructor
  intro phase
  cases phase with
  | running rest => exact hrunning rest
  | waiting l m next =>
      constructor
      rintro phase ⟨⟩
      exact hrunning next
  | answered reply => exact hanswered reply

/-- The phases of all calls. -/
def phases (s : LockedSystem C V R) : Multiset (CallPhase V R) :=
  ↑(s.tasks.map LockedTask.phase)

/-- A call that goes on gets to its next phase. -/
theorem cascades_step {s s' : LockedSystem C V R}
    (h : ∃ i, s.canStep i = true ∧ s' = s.step body (.task i)) :
    Cascades phases (fun new job => ∀ j ∈ new, Before j job) s s' := by
  obtain ⟨i, hcan, rfl⟩ := h
  cases hi : s.tasks[i]? with
  | none =>
      rw [canStep, hi] at hcan
      cases hcan
  | some t =>
      have hnext : ∃ t', (s.step body (.task i)).tasks = s.tasks.set i t' ∧ Before t'.phase t.phase := by
        rw [canStep, hi, Option.map_some] at hcan
        simp only [step, hi]
        unfold LockedSystem.stepTask
        split
        · rename_i l m next hphase
          exact ⟨_, rfl, by rw [hphase]; exact .lock l m next⟩
        · rename_i l next hphase
          exact ⟨_, rfl, by rw [hphase]; exact .read l next (s.data l)⟩
        · rename_i l v next hphase
          exact ⟨_, rfl, by rw [hphase]; exact .write l v next⟩
        · rename_i reply hphase
          exact ⟨_, rfl, by rw [hphase]; exact .ret reply⟩
        · rename_i l m next hphase
          rw [hphase] at hcan
          rw [if_pos hcan]
          exact ⟨_, rfl, by rw [hphase]; exact .grant l m next⟩
        · rename_i reply hphase
          rw [hphase] at hcan
          cases hcan
      obtain ⟨t', htasks, hbefore⟩ := hnext
      obtain ⟨hlt, hget⟩ := List.getElem?_eq_some_iff.mp hi
      obtain ⟨l₁, l₂, hsplit, -, hset⟩ :
          ∃ l₁ l₂, s.tasks = l₁ ++ s.tasks[i] :: l₂ ∧ l₁.length = i ∧
            s.tasks.set i t' = l₁ ++ t' :: l₂ := List.exists_of_set hlt
      refine ⟨t.phase, ↑((l₁ ++ l₂).map LockedTask.phase), {t'.phase}, ?_, ?_, ?_⟩
      · show ((s.tasks.map LockedTask.phase : List _) : Multiset (CallPhase V R)) = _
        rw [hsplit, hget, List.map_append, List.map_cons, List.map_append, Multiset.cons_coe]
        exact Multiset.coe_eq_coe.mpr List.perm_middle
      · show (((s.step body (.task i)).tasks.map LockedTask.phase : List _) :
          Multiset (CallPhase V R)) = _
        rw [htasks, hset, List.map_append, List.map_cons, List.map_append, add_comm,
          Multiset.singleton_add, Multiset.cons_coe]
        exact Multiset.coe_eq_coe.mpr List.perm_middle
      · intro j hj
        rw [Multiset.mem_singleton.mp hj]
        exact hbefore

/-- **The calls end**: if no more calls are made, no schedule goes on for ever. -/
theorem schedule_ends (body : C → LockedCall V R) (s : LockedSystem C V R) (schedule : ℕ → ℕ) :
    ∃ n, ((List.range n).foldl (fun s k => s.step body (.task (schedule k))) s).canStep (schedule n) =
      false := by
  by_contra hforever
  push Not at hforever
  obtain ⟨n, hn⟩ := exists_not_step wellFounded_before
    (fun s s' (h : ∃ i, s.canStep i = true ∧ s' = s.step body (.task i)) => cascades_step h)
    fun n => (List.range n).foldl (fun s k => s.step body (.task (schedule k))) s
  apply hn
  refine ⟨schedule n, by simpa using hforever n, ?_⟩
  rw [List.range_succ, List.foldl_append]
  rfl

end LockedSystem

end Rafka
