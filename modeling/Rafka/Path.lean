/-
Rafka/Path.lean

Paths and where they lead.

A path is a list of characters.  `join` is the join of `PathBuf`: an absolute
path replaces what it is joined to, a relative one is put behind it, with a
separator unless there is one already.

A location is the list of directory names from the innermost outwards, so the
root is the empty list and the parent of a location is its tail.  A path is
followed segment by segment from the working directory, or from the root if it
is absolute; there are no symbolic links.

Main results: a join is followed in two stages (`resolve_join`), and a walk
that never climbs above its start is the same under every start
(`walk_append_of_descend`), while one that climbs forgets its start
(`not_mem_walk_of_climb`).
-/
import Mathlib.Data.List.Infix

namespace Rafka

/-- The characters of a path. -/
abbrev PathBuf := List Char

/-- The name of a file or directory. -/
abbrev Name := List Char

/-- Names from the innermost outwards. -/
abbrev Location := List Name

namespace Path

/-- The path starts at the root. -/
def isAbsolute (p : PathBuf) : Bool := p.head? = some '/'

/-- `PathBuf::join`. -/
def join (p q : PathBuf) : PathBuf :=
  if isAbsolute q then q
  else if p = [] ∨ p.getLast? = some '/' then p ++ q
  else p ++ '/' :: q

/-- The segments of a path. -/
def split : PathBuf → List Name
  | [] => [[]]
  | c :: cs =>
      if c = '/' then [] :: split cs
      else
        match split cs with
        | [] => [[c]]
        | n :: ns => (c :: n) :: ns

/-- Follow one segment. -/
def visit (l : Location) (n : Name) : Location :=
  if n = [] ∨ n = ['.'] then l
  else if n = ['.', '.'] then l.tail
  else n :: l

/-- Follow segments. -/
def walk (l : Location) (ns : List Name) : Location := ns.foldl visit l

/-- Where the path leads from the working directory `cwd`. -/
def resolve (cwd : Location) (p : PathBuf) : Location :=
  walk (if isAbsolute p then [] else cwd) (split p)

/-- A name that a file or directory can have. -/
def IsName (n : Name) : Prop := n ≠ [] ∧ n ≠ ['.'] ∧ n ≠ ['.', '.'] ∧ '/' ∉ n

/-! ### Joins -/

theorem split_ne_nil (p : PathBuf) : split p ≠ [] := by
  cases p with
  | nil => simp [split]
  | cons c cs =>
      simp only [split]
      split
      · simp
      · split <;> simp

/-- A separator separates the segments. -/
theorem split_append_separator (p q : PathBuf) :
    split (p ++ '/' :: q) = split p ++ split q := by
  induction p with
  | nil => rfl
  | cons c cs ih =>
      rw [List.cons_append]
      simp only [split, ih]
      by_cases hc : c = '/'
      · simp only [hc, if_true, List.cons_append]
      · simp only [if_neg hc]
        cases hs : split cs with
        | nil => exact absurd hs (split_ne_nil cs)
        | cons n ns => rfl

theorem split_of_not_mem {p : PathBuf} (h : '/' ∉ p) : split p = [p] := by
  induction p with
  | nil => rfl
  | cons c cs ih =>
      have hc : c ≠ '/' := fun heq => h (heq ▸ List.mem_cons_self)
      have hcs : '/' ∉ cs := fun hmem => h (List.mem_cons_of_mem c hmem)
      simp only [split, if_neg hc, ih hcs]

theorem length_of_mem_split {p : PathBuf} {n : Name} (h : n ∈ split p) :
    n.length ≤ p.length := by
  induction p generalizing n with
  | nil =>
      simp only [split, List.mem_singleton] at h
      simp [h]
  | cons c cs ih =>
      simp only [split] at h
      split at h
      · rcases List.mem_cons.mp h with rfl | hmem
        · simp
        · exact Nat.le_succ_of_le (ih hmem)
      · cases hs : split cs with
        | nil => exact absurd hs (split_ne_nil cs)
        | cons n' ns =>
            rw [hs] at h
            rcases List.mem_cons.mp h with rfl | hmem
            · have hle := ih (hs ▸ List.mem_cons_self)
              simp only [List.length_cons]
              omega
            · exact Nat.le_succ_of_le (ih (hs ▸ List.mem_cons_of_mem n' hmem))

theorem walk_append (l : Location) (ns ms : List Name) :
    walk l (ns ++ ms) = walk (walk l ns) ms :=
  List.foldl_append

theorem walk_singleton {n : Name} (h : IsName n) (l : Location) : walk l [n] = n :: l := by
  obtain ⟨hnil, hdot, hdots, -⟩ := h
  simp [walk, visit, hnil, hdot, hdots]

theorem isAbsolute_append {p : PathBuf} (h : p ≠ []) (q : PathBuf) :
    isAbsolute (p ++ q) = isAbsolute p := by
  obtain ⟨c, cs, rfl⟩ := List.exists_cons_of_ne_nil h
  rfl

/-- A join is followed in two stages. -/
theorem resolve_join (cwd : Location) (p q : PathBuf) :
    resolve cwd (join p q) =
      if isAbsolute q then walk [] (split q) else walk (resolve cwd p) (split q) := by
  unfold join
  by_cases hq : isAbsolute q = true
  · simp only [hq, if_true, resolve]
  · rw [if_neg hq, if_neg hq]
    rcases List.eq_nil_or_concat' p with rfl | ⟨p', c, rfl⟩
    · -- nothing in front
      have hcwd : resolve cwd [] = cwd := rfl
      simp only [true_or, if_true, List.nil_append, hcwd]
      simp only [resolve, if_neg hq]
    · by_cases hc : c = '/'
      · subst hc
        rw [if_pos (.inr (by simp)), List.append_assoc, List.singleton_append]
        have habs : isAbsolute (p' ++ '/' :: q) = isAbsolute (p' ++ ['/']) := by
          cases p' <;> rfl
        -- the empty segment after a separator at the end leads nowhere
        have hskip : ∀ l, walk l (split []) = l := fun _ => rfl
        simp only [resolve, habs, split_append_separator, walk_append, hskip]
      · have hlast : ¬ (p' ++ [c] = [] ∨ (p' ++ [c]).getLast? = some '/') := by
          simp [hc]
        rw [if_neg hlast]
        simp only [resolve, isAbsolute_append (show p' ++ [c] ≠ [] by simp),
          split_append_separator, walk_append]

/-! ### Walks that stay and walks that climb -/

/-- Follow one segment without climbing above the start. -/
def visit? (l : Location) (n : Name) : Option Location :=
  if n = [] ∨ n = ['.'] then some l
  else if n = ['.', '.'] then
    match l with
    | [] => none
    | _ :: l' => some l'
  else some (n :: l)

/-- Follow segments without climbing above the start. -/
def descend (l : Location) (ns : List Name) : Option Location := ns.foldlM visit? l

/-- A walk that does not climb above its start is the same under every start. -/
theorem walk_append_of_descend {l l' : Location} {ns : List Name}
    (h : descend l ns = some l') (base : Location) :
    walk (l ++ base) ns = l' ++ base := by
  induction ns generalizing l with
  | nil =>
      cases h
      rfl
  | cons n ns ih =>
      rw [descend, List.foldlM_cons, Option.bind_eq_bind, Option.bind_eq_some_iff] at h
      obtain ⟨l₁, hvisit, hrest⟩ := h
      have hsame : visit (l ++ base) n = l₁ ++ base := by
        unfold visit? at hvisit
        unfold visit
        split_ifs at hvisit ⊢
        · cases hvisit
          rfl
        · cases l with
          | nil => cases hvisit
          | cons m l =>
              cases hvisit
              rfl
        · cases hvisit
          rfl
      rw [walk, List.foldl_cons, hsame]
      exact ih hrest

/-- A walk names only what its start and its segments name. -/
theorem mem_of_mem_walk {l : Location} {ns : List Name} {n : Name} (h : n ∈ walk l ns) :
    n ∈ l ∨ n ∈ ns := by
  induction ns generalizing l with
  | nil => exact .inl h
  | cons m ns ih =>
      rcases ih h with hvisit | hrest
      · have hcases : n ∈ l ∨ n = m := by
          unfold visit at hvisit
          split_ifs at hvisit
          · exact .inl hvisit
          · exact .inl (List.mem_of_mem_tail hvisit)
          · exact (List.mem_cons.mp hvisit).symm
        rcases hcases with hl | rfl
        · exact .inl hl
        · exact .inr List.mem_cons_self
      · exact .inr (List.mem_cons_of_mem m hrest)

/-- A walk that climbs above its start leaves a directory that it does not
name. -/
theorem not_mem_walk_of_climb {l : Location} {ns : List Name} {c : Name}
    (h : descend l ns = none) (hc : c ∉ ns) (hl : c ∉ l) : c ∉ walk (l ++ [c]) ns := by
  induction ns generalizing l with
  | nil => cases h
  | cons n ns ih =>
      have hcn : c ≠ n := fun heq => hc (heq ▸ List.mem_cons_self)
      have hcns : c ∉ ns := fun hmem => hc (List.mem_cons_of_mem n hmem)
      rw [walk, List.foldl_cons]
      rw [descend, List.foldlM_cons, Option.bind_eq_bind] at h
      cases hvisit : visit? l n with
      | some l₁ =>
          rw [hvisit, Option.bind_some] at h
          have hone : descend l [n] = some l₁ := by simp [descend, hvisit]
          have hsame : visit (l ++ [c]) n = l₁ ++ [c] := walk_append_of_descend hone [c]
          have hl₁ : c ∉ l₁ := by
            intro hmem
            unfold visit? at hvisit
            split_ifs at hvisit
            · cases hvisit
              exact hl hmem
            · cases l with
              | nil => cases hvisit
              | cons m l =>
                  cases hvisit
                  exact hl (List.mem_cons_of_mem m hmem)
            · cases hvisit
              rcases List.mem_cons.mp hmem with heq | hmem
              · exact hcn heq
              · exact hl hmem
          rw [hsame]
          exact ih h hcns hl₁
      | none =>
          -- the step that leaves the start
          have hroot : visit (l ++ [c]) n = [] := by
            unfold visit? at hvisit
            split_ifs at hvisit with hskip hup
            cases l with
            | nil => simp [visit, hup]
            | cons m l => cases hvisit
          rw [hroot]
          intro hmem
          rcases mem_of_mem_walk hmem with hnil | hns
          · cases hnil
          · exact hcns hns

end Path

end Rafka
