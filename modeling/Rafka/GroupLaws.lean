/-
Rafka/GroupLaws.lean

Leaders and generations of consumer groups.

`Rafka.Coordinator` says which assignments a group hands out.  This module is
about what holds a group together while it does so.  `handle_sync_group`
applies the leader's map before it looks the caller up, so that a refused
call leaves no trace rests on an invariant: the leader of a group is one of
its members (`Led`).  From the steps of a group, `group_step_cases`, follow

* `led_and_lawful` — every group keeps its leader, the generation rises
  exactly when a join finds the group empty or stable, and a call that is
  refused changes nothing;
* `stable_generation_frozen` — once stable, a group keeps its members and
  their assignments for as long as its generation lasts.

Both hold for groups with fewer than `2 ^ 31` rebalances, whose generation
counters have room (`hasRoom_of_rebalances`).
-/
import Rafka.Coordinator

namespace Rafka

/-! ### The leader of a group -/

namespace GroupMetadata

/-- The group has a leader, who is a member. -/
def Led (g : GroupMetadata) : Prop := ∃ l, g.leaderId = some l ∧ l ∈ g.members

variable (g : GroupMetadata)

/-- The first member to join leads. -/
theorem join_leaderId (mid cid pt : String) (ts : List String) (now : SystemTime) :
    (g.join mid cid pt ts now).leaderId = some (g.leaderId.getD mid) := by
  simp only [join]
  cases g.leaderId <;> cases g.state <;> simp

theorem mem_members_join (mid cid pt : String) (ts : List String) (now : SystemTime)
    (id : String) :
    id ∈ (g.join mid cid pt ts now).members ↔ id = mid ∨ id ∈ g.members := by
  have hmembers : ∃ m, (g.join mid cid pt ts now).members = g.members.insert mid m := by
    simp only [join]
    split_ifs <;> exact ⟨_, rfl⟩
  obtain ⟨m, hm⟩ := hmembers
  rw [hm, Finmap.mem_insert]

@[simp] theorem sync_leaderId (mid : String) (map : AssignmentMap) :
    (g.sync mid map).leaderId = g.leaderId := by
  unfold sync
  split <;> rfl

theorem mem_members_heartbeat (mid : String) (now : SystemTime) (id : String) :
    id ∈ (g.heartbeat mid now).members ↔ id ∈ g.members := by
  rw [← Finmap.lookup_isSome, ← Finmap.lookup_isSome, heartbeat, HashMap.lookup_modify]
  split
  · simp
  · rfl

/-- A join keeps the leader, or makes the new member one. -/
theorem led_join {mid : String} (hg : g.Led ∨ g.leaderId = none) (cid pt : String)
    (ts : List String) (now : SystemTime) : (g.join mid cid pt ts now).Led := by
  refine ⟨g.leaderId.getD mid, g.join_leaderId mid cid pt ts now, ?_⟩
  rw [g.mem_members_join]
  rcases hg with ⟨l, hl, hmem⟩ | hnone
  · rw [hl]
    exact .inr hmem
  · rw [hnone]
    exact .inl rfl

end GroupMetadata

/-! ### What a call does to a group -/

namespace GroupRun

variable {r : GroupRun}

/-- How the group under `gid` came out of a call: it was left alone, joined,
synced by one that knows its generation, or refreshed by a heartbeat. -/
theorem group_step_cases {op : GroupOp} {gid : String} {g' : GroupMetadata}
    (h : (r.step op).group gid = some g') :
    (r.group gid = some g' ∧ gid ∉ op.joins) ∨
    (∃ mid cid pt ts now, gid ∈ op.joins ∧ g' = (r.joined gid).join mid cid pt ts now) ∨
    (∃ g mid map, r.group gid = some g ∧ gid ∉ op.joins ∧ g' = g.sync mid map) ∨
    (∃ g mid now, r.group gid = some g ∧ gid ∉ op.joins ∧ g' = g.heartbeat mid now) := by
  cases op with
  | join gid₀ mid cid pt ts uuid now =>
      rw [group_step_join] at h
      by_cases hgid : gid = gid₀
      · subst hgid
        rw [if_pos rfl, Option.some.injEq] at h
        exact .inr (.inl ⟨_, cid, pt, ts, now, rfl, h.symm⟩)
      · rw [if_neg hgid] at h
        refine .inl ⟨h, ?_⟩
        intro hjoins
        cases hjoins
        exact hgid rfl
  | sync gid₀ mid gen map =>
      rw [group_step_sync] at h
      by_cases hgid : gid = gid₀
      · subst hgid
        rw [if_pos rfl, Option.map_eq_some_iff] at h
        obtain ⟨g, hg, rfl⟩ := h
        split
        · exact .inr (.inr (.inl ⟨g, mid, map, hg, by simp [GroupOp.joins], rfl⟩))
        · exact .inl ⟨hg, by simp [GroupOp.joins]⟩
      · rw [if_neg hgid] at h
        exact .inl ⟨h, by simp [GroupOp.joins]⟩
  | heartbeat gid₀ mid gen now =>
      rw [group_step_heartbeat] at h
      by_cases hgid : gid = gid₀
      · subst hgid
        rw [if_pos rfl, Option.map_eq_some_iff] at h
        obtain ⟨g, hg, rfl⟩ := h
        split
        · exact .inr (.inr (.inr ⟨g, mid, now, hg, by simp [GroupOp.joins], rfl⟩))
        · exact .inl ⟨hg, by simp [GroupOp.joins]⟩
      · rw [if_neg hgid] at h
        exact .inl ⟨h, by simp [GroupOp.joins]⟩

theorem joined_eq {gid : String} {g : GroupMetadata} (h : r.group gid = some g) :
    r.joined gid = g := by
  rw [joined, h, Option.getD_some]

/-- Every group has a leader among its members. -/
def Led (r : GroupRun) : Prop := ∀ gid g, r.group gid = some g → g.Led

theorem led_init : init.Led := by
  intro gid g hg
  rw [init_group] at hg
  cases hg

/-- The group a join works on is led, or new. -/
theorem Led.joined (hr : r.Led) (gid : String) :
    (r.joined gid).Led ∨ (r.joined gid).leaderId = none := by
  cases hg : r.group gid with
  | none =>
      refine .inr ?_
      rw [GroupRun.joined, hg]
      rfl
  | some g =>
      rw [joined_eq hg]
      exact .inl (hr gid g hg)

/-- **Step lemma** for the leader. -/
theorem Led.step (hr : r.Led) (op : GroupOp) : (r.step op).Led := by
  intro gid g' hg'
  obtain ⟨hg, -⟩ | ⟨mid, cid, pt, ts, now, -, rfl⟩ | ⟨g, mid, map, hg, -, rfl⟩ |
    ⟨g, mid, now, hg, -, rfl⟩ := group_step_cases hg'
  · exact hr gid g' hg
  · exact (r.joined gid).led_join (hr.joined gid) cid pt ts now
  · obtain ⟨l, hl, hmem⟩ := hr gid g hg
    exact ⟨l, by rw [g.sync_leaderId, hl], (g.mem_members_sync mid map l).mpr hmem⟩
  · obtain ⟨l, hl, hmem⟩ := hr gid g hg
    exact ⟨l, hl, (g.mem_members_heartbeat mid now l).mpr hmem⟩

/-! ### Refused calls -/

/-- A call that is refused leaves all groups exactly as they were. -/
def RejectsCleanly (r : GroupRun) : Prop :=
  (∀ gid mid gen map msg, (r.coordinator.handleSyncGroup gid mid gen map).1 = .error msg →
    (r.coordinator.handleSyncGroup gid mid gen map).2 = r.coordinator) ∧
  ∀ gid mid gen now msg, (r.coordinator.handleHeartbeat gid mid gen now).1 = .error msg →
    (r.coordinator.handleHeartbeat gid mid gen now).2 = r.coordinator

theorem setGroup_self {c : GroupCoordinator} {gid : String} {g : GroupMetadata}
    (h : c.groups.lookup gid = some g) : c.setGroup gid g = c := by
  rw [GroupCoordinator.setGroup, HashMap.insert_self h]

/-- The leader's map is applied only for a caller who is found afterwards. -/
theorem Led.rejectsCleanly (hr : r.Led) : r.RejectsCleanly := by
  constructor
  · intro gid mid gen map msg herr
    cases hg : r.coordinator.groups.lookup gid with
    | none => simp only [GroupCoordinator.handleSyncGroup, hg]
    | some g =>
        by_cases hgen : g.generationId = gen
        · simp only [GroupCoordinator.handleSyncGroup, hg, hgen, ne_eq, not_true_eq_false,
            if_false] at herr ⊢
          cases hm : (g.sync mid map).members.lookup mid with
          | some m =>
              rw [hm] at herr
              cases herr
          | none =>
              -- the caller is no member, so not the leader
              have hsilent : ¬ g.LeaderSpeaks mid := by
                rintro ⟨-, hleader⟩
                obtain ⟨l, hl, hmem⟩ := hr gid g hg
                rw [hleader, Option.some.injEq] at hl
                subst hl
                exact Finmap.lookup_eq_none.mp hm ((g.mem_members_sync mid map mid).mpr hmem)
              rw [g.sync_of_not_speaks hsilent]
              exact setGroup_self hg
        · simp [GroupCoordinator.handleSyncGroup, hg, hgen]
  · intro gid mid gen now msg herr
    cases hg : r.coordinator.groups.lookup gid with
    | none => simp only [GroupCoordinator.handleHeartbeat, hg]
    | some g =>
        by_cases hgen : g.generationId = gen
        · simp only [GroupCoordinator.handleHeartbeat, hg, hgen, ne_eq, not_true_eq_false,
            if_false] at herr ⊢
          cases hm : g.members.lookup mid with
          | some m =>
              rw [hm] at herr
              cases herr
          | none => rfl
        · simp [GroupCoordinator.handleHeartbeat, hg, hgen]

/-! ### Generations -/

/-- The call is a join that finds the group `gid` empty or stable. -/
def Opens (r : GroupRun) (gid : String) (op : GroupOp) : Prop :=
  gid ∈ op.joins ∧ ((r.joined gid).state = .stable ∨ (r.joined gid).state = .empty)

instance (r : GroupRun) (gid : String) (op : GroupOp) : Decidable (r.Opens gid op) :=
  inferInstanceAs (Decidable (_ ∧ _))

/-- The number of rebalances of the group `gid` along a run. -/
def rebalances (gid : String) : GroupRun → List GroupOp → Nat
  | _, [] => 0
  | r, op :: ops => (if r.Opens gid op then 1 else 0) + rebalances gid (r.step op) ops

/-- What a call does to the leaders and generations: leaders stay, and a
generation never drops and rises exactly when a join finds the group empty or
stable. -/
structure Progresses (r : GroupRun) (op : GroupOp) : Prop where
  leader : ∀ gid g l, r.group gid = some g → g.leaderId = some l →
    ∃ g', (r.step op).group gid = some g' ∧ g'.leaderId = some l
  generation_le : ∀ gid,
    (r.joined gid).generationId.toInt ≤ ((r.step op).joined gid).generationId.toInt
  generation_lt_iff : ∀ gid,
    (r.joined gid).generationId.toInt < ((r.step op).joined gid).generationId.toInt ↔
      r.Opens gid op

/-- The generation a call leaves behind. -/
theorem generationId_step (r : GroupRun) (op : GroupOp) (gid : String) :
    ((r.step op).joined gid).generationId =
      if r.Opens gid op then (r.joined gid).generationId + 1
      else (r.joined gid).generationId := by
  cases hg' : (r.step op).group gid with
  | none =>
      -- there is no such group, and the call has not made one
      have hg : r.group gid = none := by
        cases hg : r.group gid with
        | none => rfl
        | some g =>
            have hsome := group_step_isSome (by rw [hg]; rfl : (r.group gid).isSome) op
            rw [hg'] at hsome
            cases hsome
      have hjoins : gid ∉ op.joins := by
        intro hjoins
        cases op with
        | join gid₀ mid cid pt ts uuid now =>
            cases hjoins
            rw [group_step_join, if_pos rfl] at hg'
            cases hg'
        | sync => cases hjoins
        | heartbeat => cases hjoins
      rw [if_neg fun h => hjoins h.1, joined, joined, hg, hg']
  | some g' =>
      rw [joined_eq hg']
      obtain ⟨hg, hno⟩ | ⟨mid, cid, pt, ts, now, hjoins, rfl⟩ | ⟨g, mid, map, hg, hno, rfl⟩ |
        ⟨g, mid, now, hg, hno, rfl⟩ := group_step_cases hg'
      · rw [if_neg fun h => hno h.1, joined_eq hg]
      · rcases (r.joined gid).join_generation mid cid pt ts now with
          ⟨hopen, -, hgen⟩ | ⟨hclosed, -, hgen⟩
        · rw [if_pos ⟨hjoins, hopen⟩, hgen]
        · rw [if_neg fun h => hclosed h.2, hgen]
      · rw [if_neg fun h => hno h.1, joined_eq hg, g.sync_generationId]
      · rw [if_neg fun h => hno h.1, joined_eq hg]
        rfl

/-- While there is room, the next generation is the higher one. -/
theorem Coherent.toInt_succ_joined (hr : r.Coherent) {op : GroupOp} (hroom : r.HasRoom op)
    {gid : String} (hopen : r.Opens gid op) :
    ((r.joined gid).generationId + 1).toInt = (r.joined gid).generationId.toInt + 1 := by
  obtain ⟨hjoins, hopen⟩ := hopen
  apply GroupMetadata.toInt_succ
  cases hg : r.group gid with
  | none =>
      rw [GroupRun.joined, hg]
      show (0 : Int32) ≠ Int32.maxValue
      decide
  | some g =>
      rw [joined_eq hg] at hopen ⊢
      exact hroom gid hjoins g hg (hr.stable_of_open hg hopen)

/-- **Step lemma** for leaders and generations. -/
theorem Coherent.progresses (hr : r.Coherent) {op : GroupOp} (hroom : r.HasRoom op) :
    r.Progresses op where
  leader := by
    intro gid g l hg hl
    have hsome := group_step_isSome (by rw [hg]; rfl : (r.group gid).isSome) op
    obtain ⟨g', hg'⟩ := Option.isSome_iff_exists.mp hsome
    refine ⟨g', hg', ?_⟩
    obtain ⟨hsame, -⟩ | ⟨mid, cid, pt, ts, now, -, rfl⟩ | ⟨g₁, mid, map, hg₁, -, rfl⟩ |
      ⟨g₁, mid, now, hg₁, -, rfl⟩ := group_step_cases hg'
    · rw [hg] at hsame
      cases hsame
      exact hl
    · rw [joined_eq hg, g.join_leaderId, hl, Option.getD_some]
    · rw [hg] at hg₁
      cases hg₁
      rw [g.sync_leaderId, hl]
    · rw [hg] at hg₁
      cases hg₁
      exact hl
  generation_le := by
    intro gid
    rw [generationId_step]
    split
    · rename_i hopen
      rw [hr.toInt_succ_joined hroom hopen]
      omega
    · exact Int.le_refl _
  generation_lt_iff := by
    intro gid
    rw [generationId_step]
    split
    · rename_i hopen
      rw [hr.toInt_succ_joined hroom hopen]
      exact ⟨fun _ => hopen, fun _ => by omega⟩
    · rename_i hclosed
      exact ⟨fun h => absurd h (Int.lt_irrefl _), fun h => absurd h hclosed⟩

/-- A group that has a member has a leader, who is a member. -/
def HasLeader (r : GroupRun) : Prop :=
  ∀ gid g, r.group gid = some g → (∃ id, id ∈ g.members) →
    ∃ l, g.leaderId = some l ∧ l ∈ g.members

/-- The invariant of the runs. -/
def Sane (r : GroupRun) : Prop := r.Coherent ∧ r.Led

theorem sane_init : init.Sane := ⟨coherent_init, led_init⟩

theorem Sane.step (hr : r.Sane) {op : GroupOp} (hroom : r.HasRoom op) : (r.step op).Sane :=
  ⟨hr.1.step hroom, hr.2.step op⟩

/-- A group with fewer than `2 ^ 31` rebalances never runs out of generations. -/
theorem hasRoom_of_rebalances {ops : List GroupOp} (hr : r.Coherent)
    (hfew : ∀ gid, (r.joined gid).generationId.toInt + rebalances gid r ops < 2 ^ 31) :
    Along step HasRoom r ops := by
  induction ops generalizing r with
  | nil => trivial
  | cons op ops ih =>
      have hroom : r.HasRoom op := by
        intro gid hjoins g hg hstable hmax
        have hopen : r.Opens gid op := ⟨hjoins, .inl (by rw [joined_eq hg, hstable])⟩
        have hlt := hfew gid
        rw [rebalances, if_pos hopen, joined_eq hg, hmax, Int32.toInt_maxValue] at hlt
        omega
      refine ⟨hroom, ih (hr.step hroom) ?_⟩
      intro gid
      have hlt := hfew gid
      rw [rebalances] at hlt
      rw [generationId_step]
      split
      · rename_i hopen
        rw [if_pos hopen] at hlt
        rw [hr.toInt_succ_joined hroom hopen]
        omega
      · rename_i hclosed
        rw [if_neg hclosed] at hlt
        omega

/-- From the start on, the condition is on the number of rebalances alone. -/
theorem hasRoom_init {ops : List GroupOp} (hfew : ∀ gid, rebalances gid init ops < 2 ^ 31) :
    Along step HasRoom init ops := by
  apply hasRoom_of_rebalances coherent_init
  intro gid
  have hlt := hfew gid
  have hzero : (init.joined gid).generationId.toInt = 0 := rfl
  omega

/-- **Groups keep a valid leader and refuse without side effects**, along
every run with fewer than `2 ^ 31` rebalances of each group. -/
theorem led_and_lawful {ops : List GroupOp}
    (hfew : ∀ gid, rebalances gid init ops < 2 ^ 31) :
    Always step (fun r => r.HasLeader ∧ r.RejectsCleanly) init ops ∧
      Along step Progresses init ops := by
  have hroom := hasRoom_init hfew
  constructor
  · have hsane := Always.of_along sane_init hroom fun _ _ hr hop => hr.step hop
    apply hsane.mono
    intro r hr
    exact ⟨fun gid g hg _ => hr.2 gid g hg, hr.2.rejectsCleanly⟩
  · exact Along.of_along sane_init hroom (fun _ _ hr hop => hr.step hop)
      fun _ _ hr hop => hr.1.progresses hop

theorem rebalances_le_length (gid : String) (r : GroupRun) (ops : List GroupOp) :
    rebalances gid r ops ≤ ops.length := by
  induction ops generalizing r with
  | nil => exact Nat.le_refl 0
  | cons op ops ih =>
      have hrest := ih (r.step op)
      rw [rebalances, List.length_cons]
      split <;> omega

/-- `led_and_lawful` at a run of two generations. -/
theorem led_and_lawful_staleRun :
    (∀ gid, rebalances gid init staleRun < 2 ^ 31) ∧
      Always step (fun r => r.HasLeader ∧ r.RejectsCleanly) init staleRun ∧
      Along step Progresses init staleRun := by
  have hfew : ∀ gid, rebalances gid init staleRun < 2 ^ 31 := by
    intro gid
    have hle := rebalances_le_length gid init staleRun
    have hlength : staleRun.length = 5 := rfl
    omega
  exact ⟨hfew, led_and_lawful hfew⟩

/-! ### A stable generation is frozen -/

/-- The two have the same members with the same assignments. -/
def SameAssignments (g g' : GroupMetadata) : Prop :=
  ∀ id, (g'.members.lookup id).map (·.assignment) = (g.members.lookup id).map (·.assignment)

/-- The generation of a group never drops along a run. -/
theorem Coherent.generation_le_foldl (hr : r.Coherent) {ops : List GroupOp}
    (hroom : Along GroupRun.step HasRoom r ops) (gid : String) :
    (r.joined gid).generationId.toInt ≤ ((ops.foldl GroupRun.step r).joined gid).generationId.toInt := by
  induction ops generalizing r with
  | nil => exact Int.le_refl _
  | cons op ops ih =>
      have hstep := (hr.progresses hroom.1).generation_le gid
      exact hstep.trans (ih (hr.step hroom.1) hroom.2)

/-- **Run lemma.**  As long as its generation lasts, a stable group keeps its
members and their assignments. -/
theorem Coherent.frozen (hr : r.Coherent) {ops : List GroupOp}
    (hroom : Along GroupRun.step HasRoom r ops) {gid : String} {g g' : GroupMetadata}
    (hg : r.group gid = some g) (hstable : g.state = .stable)
    (hg' : (ops.foldl GroupRun.step r).group gid = some g') (hgen : g'.generationId = g.generationId) :
    SameAssignments g g' := by
  induction ops generalizing r g with
  | nil =>
      rw [List.foldl_nil, hg] at hg'
      cases hg'
      intro id
      rfl
  | cons op ops ih =>
      have hr₁ := hr.step hroom.1
      have hsome := group_step_isSome (by rw [hg]; rfl : (r.group gid).isSome) op
      obtain ⟨g₁, hg₁⟩ := Option.isSome_iff_exists.mp hsome
      cases Evolution.of_step hg₁ with
      | kept g₀ before hs hgen₀ hassign _ =>
          rw [hg] at before
          cases before
          have hrest := ih hr₁ hroom.2 hg₁ (hs.trans hstable) hg' (hgen.trans hgen₀.symm)
          intro id
          rw [hrest id, hassign id]
      | joined mid cid pt ts now call after _ =>
          -- the join opens a generation the group never comes back from
          exfalso
          have hopen : r.Opens gid op := ⟨call, .inl (by rw [joined_eq hg, hstable])⟩
          have hlt := ((hr.progresses hroom.1).generation_lt_iff gid).mpr hopen
          have hle := hr₁.generation_le_foldl hroom.2 gid
          rw [List.foldl_cons] at hg'
          rw [joined_eq hg', hgen] at hle
          rw [joined_eq hg] at hlt
          omega
      | synced g₀ mid gen map _ before hspeaks _ _ _ =>
          rw [hg] at before
          cases before
          rw [hspeaks.1] at hstable
          cases hstable

/-- Calls that carry another generation than that of the group they name
change no group. -/
def IgnoresOtherGenerations (r : GroupRun) : Prop :=
  ∀ gid gen, (∀ g, r.group gid = some g → g.generationId ≠ gen) →
    (∀ mid map, (r.coordinator.handleSyncGroup gid mid gen map).2 = r.coordinator) ∧
      ∀ mid now, (r.coordinator.handleHeartbeat gid mid gen now).2 = r.coordinator

/-- A SyncGroup call on a stable group, be it the leader's with another map,
changes no group. -/
def IgnoresSecondSync (r : GroupRun) : Prop :=
  ∀ gid g, r.group gid = some g → g.state = .stable →
    ∀ mid gen map, (r.coordinator.handleSyncGroup gid mid gen map).2 = r.coordinator

theorem ignoresOtherGenerations (r : GroupRun) : r.IgnoresOtherGenerations := by
  intro gid gen hother
  cases hg : r.coordinator.groups.lookup gid with
  | none =>
      constructor
      · intro mid map
        simp only [GroupCoordinator.handleSyncGroup, hg]
      · intro mid now
        simp only [GroupCoordinator.handleHeartbeat, hg]
  | some g =>
      have hgen : g.generationId ≠ gen := hother g hg
      constructor
      · intro mid map
        simp [GroupCoordinator.handleSyncGroup, hg, hgen]
      · intro mid now
        simp [GroupCoordinator.handleHeartbeat, hg, hgen]

theorem ignoresSecondSync (r : GroupRun) : r.IgnoresSecondSync := by
  intro gid g hg hstable mid gen map
  have hg' : r.coordinator.groups.lookup gid = some g := hg
  by_cases hgen : g.generationId = gen
  · have hsilent : ¬ g.LeaderSpeaks mid := by
      rintro ⟨hprep, -⟩
      rw [hstable] at hprep
      cases hprep
    simp only [GroupCoordinator.handleSyncGroup, hg', hgen, ne_eq, not_true_eq_false,
      if_false, g.sync_of_not_speaks hsilent]
    cases g.members.lookup mid <;> exact setGroup_self hg'
  · simp [GroupCoordinator.handleSyncGroup, hg', hgen]

/-- **A generation that became stable is frozen.**  From any point of a run
at which a group is stable, its members and assignments stay for as long as
its generation does; SyncGroup calls on a stable group and calls of another
generation have no effect. -/
theorem stable_generation_frozen {before after : List GroupOp}
    (hfew : ∀ gid, rebalances gid init (before ++ after) < 2 ^ 31) :
    (∀ gid g g', (before.foldl step init).group gid = some g → g.state = .stable →
      ((before ++ after).foldl step init).group gid = some g' →
      g'.generationId = g.generationId → SameAssignments g g') ∧
    Always step (fun r => r.IgnoresOtherGenerations ∧ r.IgnoresSecondSync) init
      (before ++ after) := by
  have hroom := hasRoom_init hfew
  constructor
  · intro gid g g' hg hstable hg' hgen
    obtain ⟨hbefore, hafter⟩ := along_append.mp hroom
    have hcoherent := (Always.of_along coherent_init hbefore fun _ _ hr hop => hr.step hop).last
    rw [List.foldl_append] at hg'
    exact hcoherent.frozen hafter hg hstable hg' hgen
  · have hsane := Always.of_along coherent_init hroom fun _ _ hr hop => hr.step hop
    exact hsane.mono fun r _ => ⟨ignoresOtherGenerations r, ignoresSecondSync r⟩

/-- A group of one: its member joins and syncs. -/
def loneRun : List GroupOp :=
  [.join "g" "l" "c" "consumer" [] "" .unixEpoch, .sync "g" "l" 1 (mapOf [("l", [1])])]

/-- The leader's map is applied, a follower asks, and the leader syncs again
with another map. -/
def resyncRun : List GroupOp :=
  [.heartbeat "g" "l" 1 .unixEpoch, .sync "g" "l" 1 (mapOf [("l", [7])]),
   .sync "g" "l" 0 (mapOf [("l", [8])])]

/-- `stable_generation_frozen` at `resyncRun`: the leader keeps the bytes of
its first map. -/
theorem stable_generation_frozen_resyncRun :
    (∀ gid, rebalances gid init (loneRun ++ resyncRun) < 2 ^ 31) ∧
      (∀ g g', (loneRun.foldl step init).group "g" = some g → g.state = .stable →
        ((loneRun ++ resyncRun).foldl step init).group "g" = some g' →
        g'.generationId = g.generationId → SameAssignments g g') ∧
      heldBytes ((loneRun ++ resyncRun).foldl step init) "g" "l" = some [1] := by
  have hfew : ∀ gid, rebalances gid init (loneRun ++ resyncRun) < 2 ^ 31 := by
    intro gid
    have hle := rebalances_le_length gid init (loneRun ++ resyncRun)
    have hlength : (loneRun ++ resyncRun).length = 5 := rfl
    omega
  exact ⟨hfew, (stable_generation_frozen hfew).1 "g", by decide⟩

end GroupRun

end Rafka
