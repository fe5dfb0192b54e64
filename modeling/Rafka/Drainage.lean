/-
Rafka/Drainage.lean

A queue that several drainers empty.

Items are added to a queue, a drainer that holds nothing takes items from its
front, and then stores what it holds, item by item from the front; it may also
drop items.  `Drainage` has the queue (`pending`), what each drainer holds, and
the two histories of the items that were added and stored.

Each drainer stores in the order of the queue, but two of them may overtake one
another.  Given a partial order `Prec` between items that the queue respects,
and a classification of the items, `InOrder` says that no item is stored behind
one of its class that it precedes.  Main result: every operation keeps it, if a
drainer stores an item only while no other one holds an item of its class that
precedes it (`InOrder.store`).
-/
import Mathlib.Data.List.Nodup
import Mathlib.Logic.Function.Basic

namespace Rafka

/-- A queue and its drainers. -/
structure Drainage (τ δ : Type*) where
  added : List τ
  pending : List τ
  held : δ → List τ
  stored : List τ

namespace Drainage

variable {τ δ : Type*}

/-- An item comes before another one in the list. -/
def Before (l : List τ) (a b : τ) : Prop := [a, b].Sublist l

theorem Before.append {l : List τ} {a b : τ} (h : Before l a b) (l' : List τ) :
    Before (l ++ l') a b :=
  h.trans (List.sublist_append_left l l')

theorem before_concat {l : List τ} {a : τ} (h : a ∈ l) (b : τ) : Before (l ++ [b]) a b := by
  have hfirst : [a].Sublist l := List.singleton_sublist.mpr h
  exact hfirst.append (List.Sublist.refl [b])

/-- No item comes before itself, or before and after another one. -/
theorem Before.asymm {l : List τ} {a b : τ} (hl : l.Nodup) (h : Before l a b) :
    ¬ Before l b a := by
  intro h'
  induction l with
  | nil => cases h
  | cons c l ih =>
      obtain ⟨hc, hl⟩ := List.nodup_cons.mp hl
      rcases List.sublist_cons_iff.mp h with hrest | ⟨r, hr, hsub⟩
      · rcases List.sublist_cons_iff.mp h' with hrest' | ⟨r', hr', hsub'⟩
        · exact ih hl hrest hrest'
        · -- `b` would be the head and in the tail
          have hb : b = c := (List.cons.inj hr').1
          exact hc (hb ▸ hrest.subset (by simp))
      · have ha : a = c := (List.cons.inj hr).1
        rcases List.sublist_cons_iff.mp h' with hrest' | ⟨r', hr', hsub'⟩
        · exact hc (ha ▸ hrest'.subset (by simp))
        · have hr₂ : r = [b] := (List.cons.inj hr).2.symm
          have hb : b = c := (List.cons.inj hr').1
          rw [hr₂] at hsub
          exact hc (hb ▸ hsub.subset (by simp))

/-! ### The invariant -/

/-- The item is in the queue or in the hands of a drainer. -/
def Live (q : Drainage τ δ) (a : τ) : Prop := a ∈ q.pending ∨ ∃ d, a ∈ q.held d

/-- Nothing is stored behind an item of its class that it precedes, and nothing
in the queue will be. -/
structure InOrder (Same Prec : τ → τ → Prop) (q : Drainage τ δ) : Prop where
  nodup : q.added.Nodup
  /-- The queue respects the order. -/
  respects : ∀ a ∈ q.added, ∀ b ∈ q.added, Prec a b → Before q.added a b
  /-- Every drainer is ahead of the queue, in the order of the queue. -/
  fifo : ∀ d, (q.held d ++ q.pending).Pairwise (Before q.added)
  mem_stored : ∀ a ∈ q.stored, a ∈ q.added
  mem_live : ∀ a, q.Live a → a ∈ q.added
  /-- A live item does not precede a stored one. -/
  live : ∀ a ∈ q.stored, ∀ b, q.Live b → Same a b → ¬ Prec b a
  stored : q.stored.Pairwise fun a b => Same a b → ¬ Prec b a

variable {Same Prec : τ → τ → Prop} {q : Drainage τ δ}

/-- Only the order of the added items counts. -/
theorem InOrder.congr {Prec' : τ → τ → Prop} (h : q.InOrder Same Prec)
    (heq : ∀ a, ∀ b ∈ q.added, Prec' a b → Prec a b) : q.InOrder Same Prec' where
  nodup := h.nodup
  respects a ha b hb hprec := h.respects a ha b hb (heq a b hb hprec)
  fifo := h.fifo
  mem_stored := h.mem_stored
  mem_live := h.mem_live
  live a ha b hb hsame hprec := h.live a ha b hb hsame (heq b a (h.mem_stored a ha) hprec)
  stored := h.stored.imp_of_mem fun ha _ hpair hsame hprec =>
    hpair hsame (heq _ _ (h.mem_stored _ ha) hprec)

/-- An item is added that precedes none of the others. -/
theorem InOrder.add (h : q.InOrder Same Prec) {t : τ} (hnew : t ∉ q.added)
    (hlast : ∀ b, b ∈ q.added ∨ b = t → ¬ Prec t b) :
    InOrder Same Prec
      { q with added := q.added ++ [t], pending := q.pending ++ [t] } := by
  have hlive : ∀ b, Live { q with added := q.added ++ [t], pending := q.pending ++ [t] } b →
      q.Live b ∨ b = t := by
    rintro b (hb | ⟨d, hb⟩)
    · rcases List.mem_append.mp hb with hold | hsingle
      · exact .inl (.inl hold)
      · exact .inr (List.mem_singleton.mp hsingle)
    · exact .inl (.inr ⟨d, hb⟩)
  constructor
  · exact List.nodup_append.mpr
      ⟨h.nodup, List.nodup_singleton t, fun a ha b hb heq => by
        rw [List.mem_singleton.mp hb] at heq
        exact hnew (heq ▸ ha)⟩
  · intro a ha b hb hprec
    rcases List.mem_append.mp ha with ha | ha
    · rcases List.mem_append.mp hb with hb | hb
      · exact (h.respects a ha b hb hprec).append [t]
      · rw [List.mem_singleton.mp hb]
        exact before_concat ha t
    · -- the new item precedes nothing
      rw [List.mem_singleton.mp ha] at hprec
      have hb' : b ∈ q.added ∨ b = t := by simpa using hb
      exact absurd hprec (hlast b hb')
  · intro d
    rw [← List.append_assoc, List.pairwise_append]
    refine ⟨(h.fifo d).imp fun hbefore => hbefore.append [t], List.pairwise_singleton _ t, ?_⟩
    intro a ha b hb
    rw [List.mem_singleton.mp hb]
    refine before_concat (h.mem_live a ?_) t
    rcases List.mem_append.mp ha with hheld | hpending
    · exact .inr ⟨d, hheld⟩
    · exact .inl hpending
  · exact fun a ha => List.mem_append_left _ (h.mem_stored a ha)
  · intro a ha
    rcases hlive a ha with hold | rfl
    · exact List.mem_append_left _ (h.mem_live a hold)
    · simp
  · intro a ha b hb hsame
    rcases hlive b hb with hold | rfl
    · exact h.live a ha b hold hsame
    · exact hlast a (.inl (h.mem_stored a ha))
  · exact h.stored

variable [DecidableEq δ]

/-- The drainer `d` now holds `l`, and the queue is `rest`. -/
def hand (q : Drainage τ δ) (d : δ) (l rest : List τ) : Drainage τ δ :=
  { q with pending := rest, held := Function.update q.held d l }

theorem live_of_live_hand {d : δ} {l rest : List τ}
    (hl : (l ++ rest).Sublist (q.held d ++ q.pending)) (hrest : rest.Sublist q.pending) {a : τ}
    (ha : (q.hand d l rest).Live a) : q.Live a := by
  rcases ha with ha | ⟨d', ha⟩
  · exact .inl (hrest.subset ha)
  · by_cases hd : d' = d
    · subst hd
      have hmem : a ∈ q.held d' ++ q.pending := by
        refine hl.subset (List.mem_append_left rest ?_)
        simpa [hand] using ha
      rcases List.mem_append.mp hmem with hheld | hpending
      · exact .inr ⟨d', hheld⟩
      · exact .inl hpending
    · refine .inr ⟨d', ?_⟩
      simpa [hand, hd] using ha

/-- A drainer takes items from the queue, or drops some of what it holds. -/
theorem InOrder.hand (h : q.InOrder Same Prec) {d : δ} {l rest : List τ}
    (hl : (l ++ rest).Sublist (q.held d ++ q.pending)) (hrest : rest.Sublist q.pending) :
    (q.hand d l rest).InOrder Same Prec where
  nodup := h.nodup
  respects := h.respects
  fifo d' := by
    by_cases hd : d' = d
    · subst hd
      simp only [Drainage.hand, Function.update_self]
      exact (h.fifo d').sublist hl
    · simp only [Drainage.hand, Function.update_of_ne hd]
      exact (h.fifo d').sublist ((List.Sublist.refl _).append hrest)
  mem_stored := h.mem_stored
  mem_live a ha := h.mem_live a (live_of_live_hand hl hrest ha)
  live a ha b hb := h.live a ha b (live_of_live_hand hl hrest hb)
  stored := h.stored

/-- A drainer stores the item at its front, while no other one holds an item of
its class that precedes it. -/
theorem InOrder.store (h : q.InOrder Same Prec) {d : δ} {t : τ} {l : List τ}
    (hheld : q.held d = t :: l)
    (hturn : ∀ d', d' ≠ d → ∀ b ∈ q.held d', Same t b → ¬ Prec b t) :
    InOrder Same Prec { q.hand d l q.pending with stored := q.stored ++ [t] } := by
  have hsub : (l ++ q.pending).Sublist (q.held d ++ q.pending) := by
    rw [hheld]
    exact List.sublist_cons_self t _
  have hrest := h.hand hsub (List.Sublist.refl _)
  have ht : q.Live t := .inr ⟨d, by simp [hheld]⟩
  -- what the drainer itself or the queue holds was added later
  have hown : ∀ b ∈ l ++ q.pending, ¬ Prec b t := by
    intro b hb hprec
    have hfifo := h.fifo d
    rw [hheld, List.cons_append, List.pairwise_cons] at hfifo
    have hlater : Before q.added t b := hfifo.1 b hb
    have hmem : b ∈ q.added := hlater.subset (by simp)
    exact hlater.asymm h.nodup (h.respects b hmem t (h.mem_live t ht) hprec)
  constructor
  · exact h.nodup
  · exact h.respects
  · exact hrest.fifo
  · intro a ha
    rcases List.mem_append.mp ha with hold | hnew
    · exact h.mem_stored a hold
    · rw [List.mem_singleton.mp hnew]
      exact h.mem_live t ht
  · exact hrest.mem_live
  · intro a ha b hb hsame
    rcases List.mem_append.mp ha with hold | hnew
    · exact hrest.live a hold b hb hsame
    · obtain rfl := List.mem_singleton.mp hnew
      rcases hb with hpending | ⟨d', hb⟩
      · exact hown b (List.mem_append_right l hpending)
      · by_cases hd : d' = d
        · subst hd
          have hmem : b ∈ l := by simpa [Drainage.hand] using hb
          exact hown b (List.mem_append_left _ hmem)
        · have hmem : b ∈ q.held d' := by simpa [Drainage.hand, hd] using hb
          exact hturn d' hd b hmem hsame
  · rw [List.pairwise_append]
    refine ⟨h.stored, List.pairwise_singleton _ t, ?_⟩
    intro a ha b hb
    rw [List.mem_singleton.mp hb]
    exact h.live a ha t ht

end Drainage

end Rafka
