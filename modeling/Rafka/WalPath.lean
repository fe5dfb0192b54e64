/-
Rafka/WalPath.lean

Where the log files of partitions lie (`PartitionQueue::new` in
`crates/storage/src/db.rs`).

The file of a partition is `data/<topic>/partition-<id>.log`, joined from the
topic as a client has sent it.  A topic is any string, so it may be an absolute
path, climb out of the data directory, or name a directory that another topic
names too.

Main result (`separate_iff`): two partitions have different files inside the
data directory, whatever the working directory is, exactly when both topics
have a normal form and, for the same partition id, different ones.
-/
import Mathlib
import Rafka.Path
import Rafka.Wal

namespace Rafka

/-- The name of the data directory. -/
def dataName : Name := "data".toList

namespace WalPath

/-- `format!("partition-{}.log", partition_id)`. -/
def fileName (partitionId : Int32) : Name :=
  "partition-".toList ++ (toString partitionId).toList ++ ".log".toList

/-- The path that `PartitionQueue::new` builds. -/
def walPath (topic : String) (partitionId : Int32) : PathBuf :=
  Path.join (Path.join dataName topic.toList) (fileName partitionId)

/-- The file it denotes. -/
def location (cwd : Location) (topic : String) (partitionId : Int32) : Location :=
  Path.resolve cwd (walPath topic partitionId)

/-- The location lies inside the data directory. -/
def Inside (cwd : Location) (l : Location) : Prop :=
  ∃ rel, rel ≠ [] ∧ l = rel ++ dataName :: cwd

/-- The files at their locations; a file is empty before it is first opened. -/
abbrev Disk := Location → WalLog

/-- `WalLog::append` by the partition. -/
def append (disk : Disk) (cwd : Location) (topic : String) (partitionId : Int32)
    (entry : MessageEntry) : Disk :=
  Function.update disk (location cwd topic partitionId)
    ((disk (location cwd topic partitionId)).append entry)

/-- What `PartitionQueue::new` reads from the file of the partition. -/
def recovered (disk : Disk) (cwd : Location) (topic : String) (partitionId : Int32) :
    Except ReadError (List MessageEntry) :=
  (disk (location cwd topic partitionId)).readAll

/-- The files of two partitions do not meet. -/
structure Separate (cwd : Location) (topic : String) (partitionId : Int32) (topic' : String)
    (partitionId' : Int32) : Prop where
  differ : location cwd topic partitionId ≠ location cwd topic' partitionId'
  inside : Inside cwd (location cwd topic partitionId)
  inside' : Inside cwd (location cwd topic' partitionId')
  recovery : ∀ disk entry, recovered (append disk cwd topic' partitionId' entry) cwd topic
    partitionId = recovered disk cwd topic partitionId
  recovery' : ∀ disk entry, recovered (append disk cwd topic partitionId entry) cwd topic'
    partitionId' = recovered disk cwd topic' partitionId'

/-- The directory of a topic inside the data directory, worked out from the
topic alone: it must be relative, must not climb above the parent of the data
directory, and must end up inside it. -/
def normalForm (topic : String) : Option Location :=
  if Path.isAbsolute topic.toList then none
  else
    (Path.descend [dataName] (Path.split topic.toList)).bind fun l =>
      if l.getLast? = some dataName then some l.dropLast else none

/-! ### The file name -/

theorem fileName_injective : Function.Injective fileName := by
  intro p p' h
  have hdigits : (toString p).toList = (toString p').toList :=
    List.append_cancel_left (List.append_cancel_right h)
  have hint : p.toInt.repr = p'.toInt.repr := String.toList_inj.mp hdigits
  exact Int32.toInt_inj.mp (Int.repr_injective hint)

/-- Numbers are written without separators. -/
theorem separator_not_mem_repr (i : Int) : '/' ∉ i.repr.toList := by
  have hnat : ∀ n : Nat, '/' ∉ Nat.toDigits 10 n := by
    intro n hmem
    have hdigit := Nat.isDigit_of_mem_toDigits (by decide) (by decide) hmem
    exact absurd hdigit (by decide)
  cases i with
  | ofNat n =>
      show '/' ∉ (Nat.repr n).toList
      simp [hnat]
  | negSucc n =>
      show '/' ∉ ("-" ++ Nat.repr (n + 1)).toList
      simp [hnat]

/-- A name that starts as those of the log files do, without separators. -/
theorem isName_of_start {ds : List Char} (h : '/' ∉ ds) :
    Path.IsName ("partition-".toList ++ ds ++ ".log".toList) := by
  have hfirst : '/' ∉ "partition-".toList := by decide
  have hlast : '/' ∉ ".log".toList := by decide
  refine ⟨by simp, by simp, by simp, ?_⟩
  rw [List.mem_append, List.mem_append]
  rintro ((hmem | hmem) | hmem)
  · exact hfirst hmem
  · exact h hmem
  · exact hlast hmem

theorem isName_fileName (p : Int32) : Path.IsName (fileName p) :=
  isName_of_start (separator_not_mem_repr p.toInt)

theorem isAbsolute_of_start (ds : List Char) :
    Path.isAbsolute ("partition-".toList ++ ds ++ ".log".toList) = false := by
  have hne : "partition-".toList ++ ds ≠ [] := by simp
  rw [Path.isAbsolute_append hne, Path.isAbsolute_append (by simp)]
  rfl

theorem isAbsolute_fileName (p : Int32) : Path.isAbsolute (fileName p) = false :=
  isAbsolute_of_start _

/-! ### Where the files lie -/

variable {cwd : Location} {topic topic' : String} {p p' : Int32}

/-- The directory that the topic leads to. -/
def directory (cwd : Location) (topic : String) : Location :=
  if Path.isAbsolute topic.toList then Path.walk [] (Path.split topic.toList)
  else Path.walk (dataName :: cwd) (Path.split topic.toList)

theorem location_eq (cwd : Location) (topic : String) (p : Int32) :
    location cwd topic p = fileName p :: directory cwd topic := by
  have hname := isName_fileName p
  have hdata : Path.resolve cwd dataName = dataName :: cwd := by
    have hsplit : Path.split dataName = [dataName] := by decide
    have hrel : Path.isAbsolute dataName = false := by decide
    rw [Path.resolve, hrel, hsplit]
    rfl
  rw [location, walPath, Path.resolve_join, isAbsolute_fileName, if_neg Bool.false_ne_true,
    Path.split_of_not_mem hname.2.2.2, Path.walk_singleton hname, Path.resolve_join, hdata]
  rfl

theorem inside_iff : Inside cwd (location cwd topic p) ↔
    ∃ rel, directory cwd topic = rel ++ dataName :: cwd := by
  rw [location_eq]
  constructor
  · rintro ⟨rel, hne, heq⟩
    obtain ⟨n, rel', rfl⟩ := List.exists_cons_of_ne_nil hne
    exact ⟨rel', (List.cons.inj heq).2⟩
  · rintro ⟨rel, heq⟩
    exact ⟨fileName p :: rel, by simp, by rw [heq]; rfl⟩

/-- A topic with a normal form lies there, under every working directory. -/
theorem directory_of_normalForm {d : Location} (h : normalForm topic = some d) :
    directory cwd topic = d ++ dataName :: cwd := by
  unfold normalForm at h
  split at h
  · cases h
  · rename_i hrel
    obtain ⟨l, hdesc, hl⟩ := Option.bind_eq_some_iff.mp h
    split at hl
    · rename_i hlast
      cases hl
      have hsplit : l.dropLast ++ [dataName] = l := List.dropLast_append_getLast? dataName hlast
      have hwalk := Path.walk_append_of_descend hdesc cwd
      rw [directory, if_neg hrel]
      rw [List.singleton_append] at hwalk
      rw [hwalk, ← hsplit, List.append_assoc, List.singleton_append, List.dropLast_concat]
    · cases hl

/-- A directory name that is not in the topic. -/
def otherName (topic : String) : Name := List.replicate (topic.toList.length + 1) 'x'

theorem isName_otherName (topic : String) : Path.IsName (otherName topic) := by
  refine ⟨by simp [otherName], ?_, ?_, ?_⟩
  · intro h
    have := congrArg List.head? h
    simp [otherName, List.replicate_succ] at this
  · intro h
    have := congrArg List.head? h
    simp [otherName, List.replicate_succ] at this
  · simp [otherName]

theorem otherName_not_mem (topic : String) :
    otherName topic ∉ Path.split topic.toList := by
  intro h
  have hle := Path.length_of_mem_split h
  simp [otherName] at hle

/-- A topic that lies inside the data directory, whatever the working directory
is, has a normal form. -/
theorem normalForm_of_inside
    (h : Inside [otherName topic] (location [otherName topic] topic p))
    (hne : otherName topic ≠ dataName) : ∃ d, normalForm topic = some d := by
  obtain ⟨rel, hdir⟩ := inside_iff.mp h
  have hmem : otherName topic ∈ directory [otherName topic] topic := by
    rw [hdir]
    simp
  have hother := otherName_not_mem topic
  unfold normalForm
  unfold directory at hmem hdir
  by_cases habs : Path.isAbsolute topic.toList = true
  · -- an absolute topic does not pass through the working directory
    rw [if_pos habs] at hmem
    rcases Path.mem_of_mem_walk hmem with hnil | hsplit
    · cases hnil
    · exact absurd hsplit hother
  · rw [if_neg habs] at hmem hdir ⊢
    cases hdesc : Path.descend [dataName] (Path.split topic.toList) with
    | none =>
        have hclimb := Path.not_mem_walk_of_climb hdesc hother (by simpa using hne)
        exact absurd hmem hclimb
    | some l =>
        have hwalk := Path.walk_append_of_descend hdesc [otherName topic]
        rw [List.singleton_append] at hwalk
        rw [hwalk] at hdir
        -- what is left without the working directory ends in the data directory
        have hl : l = rel ++ [dataName] := by
          have hends : l ++ [otherName topic] = (rel ++ [dataName]) ++ [otherName topic] := by
            simpa using hdir
          exact List.append_cancel_right hends
        exact ⟨rel, by simp [hl]⟩

theorem otherName_ne_dataName (topic : String) : otherName topic ≠ dataName := by
  intro h
  have hhead := congrArg List.head? h
  simp [otherName, dataName, List.replicate_succ] at hhead

/-! ### Files that do not meet -/

theorem recovered_append_of_ne {disk : Disk} {entry : MessageEntry}
    (h : location cwd topic p ≠ location cwd topic' p') :
    recovered (append disk cwd topic' p' entry) cwd topic p = recovered disk cwd topic p := by
  rw [recovered, append, Function.update_of_ne h, recovered]

theorem separate_of_normalForm {d d' : Location} (hd : normalForm topic = some d)
    (hd' : normalForm topic' = some d') (hne : p = p' → d ≠ d') (cwd : Location) :
    Separate cwd topic p topic' p' := by
  have hdir : directory cwd topic = d ++ dataName :: cwd := directory_of_normalForm hd
  have hdir' : directory cwd topic' = d' ++ dataName :: cwd := directory_of_normalForm hd'
  have hdiffer : location cwd topic p ≠ location cwd topic' p' := by
    intro h
    rw [location_eq, location_eq, hdir, hdir'] at h
    obtain ⟨hfile, hdirs⟩ := List.cons.inj h
    exact hne (fileName_injective hfile) (List.append_cancel_right hdirs)
  exact {
    differ := hdiffer
    inside := inside_iff.mpr ⟨d, hdir⟩
    inside' := inside_iff.mpr ⟨d', hdir'⟩
    recovery := fun _ _ => recovered_append_of_ne hdiffer
    recovery' := fun _ _ => recovered_append_of_ne hdiffer.symm }

/-- The files of two partitions do not meet, whatever the working directory is,
exactly when both topics have a normal form and, for one partition id, not the
same. -/
theorem separate_iff (topic topic' : String) (p p' : Int32) :
    (∀ cwd, (∀ n ∈ cwd, Path.IsName n) → Separate cwd topic p topic' p') ↔
      ∃ d d', normalForm topic = some d ∧ normalForm topic' = some d' ∧ (p = p' → d ≠ d') := by
  constructor
  · intro h
    -- a working directory whose name the topic does not know
    have hinside : Inside [otherName topic] (location [otherName topic] topic p) :=
      (h _ (by simp [isName_otherName])).inside
    have hinside' : Inside [otherName topic'] (location [otherName topic'] topic' p') :=
      (h _ (by simp [isName_otherName])).inside'
    obtain ⟨d, hd⟩ := normalForm_of_inside hinside (otherName_ne_dataName topic)
    obtain ⟨d', hd'⟩ := normalForm_of_inside hinside' (otherName_ne_dataName topic')
    refine ⟨d, d', hd, hd', ?_⟩
    rintro rfl rfl
    apply (h [] (by simp)).differ
    rw [location_eq, location_eq, directory_of_normalForm hd, directory_of_normalForm hd']
  · rintro ⟨d, d', hd, hd', hne⟩ cwd -
    exact separate_of_normalForm hd hd' hne cwd

/-- The topics `orders` and `./orders` share a file, and so what one of them
appends is recovered by the other; the topic `/tmp` has its file outside the
data directory. -/
theorem orders_meet :
    ("orders", (0 : Int32)) ≠ ("./orders", 0) ∧
      location [] "orders" 0 = location [] "./orders" 0 ∧
      ¬ Separate [] "orders" 0 "./orders" 0 ∧ ¬ Inside [] (location [] "/tmp" 0) := by
  have hshared : location [] "orders" 0 = location [] "./orders" 0 := by
    rw [location_eq, location_eq]
    exact congrArg (List.cons (fileName 0)) (by decide)
  refine ⟨by decide, hshared, fun h => h.differ hshared, ?_⟩
  rw [inside_iff]
  rintro ⟨rel, hdir⟩
  have htmp : directory [] "/tmp" = ["tmp".toList] := by decide
  have hlast := congrArg List.getLast? (htmp.symm.trans hdir)
  simp [dataName] at hlast

end WalPath

end Rafka
