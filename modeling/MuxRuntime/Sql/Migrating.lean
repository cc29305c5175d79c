import MuxRuntime.Sql.Migrations

/-!
# Going to a version

Records that pass validation are those of all local versions up to the highest applied
one. From there a migrator runs the scripts of the versions in between, upwards or
downwards, and the records follow. Nothing of this is visible in the database before
the transaction is committed.
-/

namespace MuxRuntime
namespace Sql

open List Session

variable {db : MigrationDatabase} {s s' : MigrationState} {rows : MigrationTable}
  {migrations : List MigrationDefinition}

/-! ## Records -/

/-- The version that a row records as applied. -/
def rowVersion : List Value → Option Int64
  | .int version :: _ => if 0 < version then some version else none
  | _ => none

def MigrationTable.versions (rows : MigrationTable) : List Int64 :=
  rows.filterMap rowVersion

/-- The versions that the database records as applied. -/
def MigrationState.applied (s : MigrationState) : List Int64 :=
  MigrationTable.versions (s.committed.getD [])

lemma versions_append (rows new : MigrationTable) :
    (rows ++ new).versions = rows.versions ++ new.versions :=
  filterMap_append

lemma rowVersion_lock : rowVersion lockRow = none := (rfl)

variable {version : Int64}

lemma rowVersion_eq_some_iff {row : List Value} (h : 0 < version) :
    rowVersion row = some version ↔ isVersion version row = true := by
  unfold rowVersion isVersion
  split
  · rename_i v rest
    by_cases hv : 0 < v
    · simp [hv]
    have hne : v ≠ version := by
      rintro rfl
      exact hv h
    simp [hv, hne]
  · simp

/-- Deleting a version takes it off the records, and nothing else. -/
lemma versions_delete (h : 0 < version) :
    MigrationTable.versions (rows.filter fun row => !isVersion version row) =
      rows.versions.filter fun v => decide (v ≠ version) := by
  unfold MigrationTable.versions
  rw [filter_filterMap, filterMap_filter]
  apply filterMap_congr
  intro row _
  rcases hrow : rowVersion row with _ | v
  · simp
  by_cases hv : v = version
  · subst hv
    have hmatch := (rowVersion_eq_some_iff h).mp hrow
    simp [hmatch, Option.filter]
  have hother : isVersion version row = false := by
    rw [Bool.eq_false_iff]
    intro hmatch
    rw [(rowVersion_eq_some_iff h).mpr hmatch] at hrow
    exact hv (Option.some.inj hrow).symm
  simp [hother, hv, Option.filter]

variable {applied : Applied}

/-- A row that is read adds the version it records. -/
lemma readApplied_eq_ok {applied' : Applied} {row : List Value}
    (h : readApplied applied row = .ok applied') :
    applied'.versions = applied.versions ++ (rowVersion row).toList ∧
      (applied.versions.Nodup → applied'.versions.Nodup) := by
  unfold readApplied at h
  split at h
  · split at h
    · split at h
      · split at h
        · rename_i version _ name _ checksum
          by_cases hpos : 0 < version
          · rw [if_pos hpos] at h
            by_cases hmem : version ∈ applied.versions
            · rw [if_pos hmem] at h
              cases h
            · rw [if_neg hmem] at h
              cases h
              have hversions : Applied.versions (applied ++ [(version, ⟨name, checksum⟩)]) =
                  applied.versions ++ [version] := map_append
              rw [hversions]
              constructor
              · simp [rowVersion, hpos]
              · intro hnodup
                rw [nodup_append]
                simp only [nodup_cons, mem_singleton, hnodup, true_and]
                simpa using fun a ha (heq : a = version) => hmem (heq ▸ ha)
          · rw [if_neg hpos] at h
            cases h
            simp [rowVersion, hpos]
        · cases h
      · cases h
    · cases h
  · cases h

lemma readAll_eq_ok {applied' : Applied} (h : rows.foldlM readApplied applied = .ok applied') :
    applied'.versions = applied.versions ++ rows.versions ∧
      (applied.versions.Nodup → applied'.versions.Nodup) := by
  induction rows generalizing applied with
  | nil =>
    cases h
    simp [MigrationTable.versions]
  | cons row rest ih => ?_
  rw [foldlM_cons] at h
  cases hrow : readApplied applied row with
  | error e =>
    rw [hrow] at h
    cases h
  | ok applied₁ => ?_
  rw [hrow] at h
  obtain ⟨hversions, hnodup⟩ := readApplied_eq_ok hrow
  obtain ⟨hversions', hnodup'⟩ := ih h
  refine ⟨?_, fun hstart => hnodup' (hnodup hstart)⟩
  rw [hversions', hversions]
  cases hv : rowVersion row with
  | none | some v => simp [MigrationTable.versions, hv]

/-! ## Validation -/

lemma validateRecord_eq_ok {entry : Int64 × AppliedMigration}
    (h : validateRecord migrations entry = .ok ()) : ∃ m ∈ migrations, m.version = entry.1 := by
  unfold validateRecord at h
  split at h
  · cases h
  · rename_i m hm
    exact ⟨m, mem_of_find?_eq_some hm, by simpa using List.find?_some hm⟩

variable {m : MigrationDefinition}

lemma validateHistory_eq_ok {highest : Int64} (h : validateHistory applied highest m = .ok ())
    (hle : m.version ≤ highest) : m.version ∈ applied.versions := by
  unfold validateHistory at h
  by_contra hmem
  rw [if_pos (by simp [hle, hmem])] at h
  cases h

lemma le_current {v : Int64} (h : v ∈ applied.versions) : v ≤ applied.current := by
  unfold Applied.current
  cases hmax : applied.versions.max? with
  | none =>
    rw [List.max?_eq_none_iff.mp hmax] at h
    cases h
  | some highest => exact (List.max?_eq_some_iff.mp hmax).2 v h

/-- The applied versions are the local ones up to the highest applied one. -/
theorem validated_versions (h : validateAppliedMigrations db applied migrations = .ok ())
    (v : Int64) : v ∈ applied.versions ↔ ∃ m ∈ migrations, m.version = v ∧ v ≤ applied.current := by
  unfold validateAppliedMigrations at h
  cases hrecords : (db.order applied).forM (validateRecord migrations) with
  | error e =>
    rw [hrecords] at h
    cases h
  | ok u => ?_
  rw [hrecords] at h
  have hlocal := Loop.forM_eq_ok.mp hrecords
  constructor
  · intro hv
    obtain ⟨entry, hentry, rfl⟩ := mem_map.mp hv
    obtain ⟨m, hm, hversion⟩ :=
      validateRecord_eq_ok (hlocal entry ((db.order_perm applied).mem_iff.mpr hentry))
    exact ⟨m, hm, hversion, le_current hv⟩
  rintro ⟨m, hm, rfl, hle⟩
  cases hmax : applied.versions.max? with
  | none =>
    -- nothing is applied, and versions are positive
    rw [Applied.current, hmax] at hle
    exact absurd m.version_pos (not_lt.mpr hle)
  | some highest =>
    have hhistory : migrations.forM (validateHistory applied highest) = .ok () := by
      simpa [hmax, bind, Except.bind] using h
    rw [Applied.current, hmax] at hle
    exact validateHistory_eq_ok (Loop.forM_eq_ok.mp hhistory m hm) hle

/-! ## Commands -/

lemma send_meets {command : MigrationCommand} {Q : Unit → MigrationState → Prop}
    {E : String → MigrationState → Prop}
    (hok : Q () (command.effect { s with log := s.log ++ [command] }))
    (herror : ∀ e, E e { s with log := s.log ++ [command] }) : Meets (send db command) s Q E := by
  unfold Meets send
  cases db.failure (s.log ++ [command]) with
  | none => exact hok
  | some e => exact herror e

/-- Outside of a transaction the table is made and gets its lock row. -/
lemma ensureMigrationTable_meets (hidle : s.working = none) : Meets (ensureMigrationTable db) s
      (fun _ s' => ∃ rows, MigrationTable.versions rows = s.applied ∧
        s' = ⟨some rows, none, s.log ++ [.createTable, .insertLock]⟩)
      (fun _ s' => s'.applied = s.applied) := by
  obtain ⟨committed, working, log⟩ := s
  obtain rfl : working = none := hidle
  apply Meets.bind (Q := fun _ s' => s' = ⟨some (committed.getD []), none, log ++ [.createTable]⟩)
  · apply send_meets
    · cases committed with
      | none => rfl
      | some rows => rfl
    · exact fun e => rfl
  rintro _ s' rfl
  apply send_meets
  · refine ⟨_, ?_, by rw [append_assoc]; rfl⟩
    by_cases hlock : (committed.getD []).any (isVersion 0) = true
    · simp only [hlock, if_true]
      rfl
    · simp only [hlock]
      simp [MigrationTable.versions, rowVersion_lock, MigrationState.applied]
  · exact fun e => rfl

/-- The commands that open the transaction. -/
def beginCommands : SqlBackend → List MigrationCommand
  | .sqlite => [.beginTransaction]
  | .postgres | .mySql | .sqlServer => [.beginTransaction, .lock]

lemma beginMigrationTransaction_meets (backend : SqlBackend) (log : List MigrationCommand) :
    Meets (beginMigrationTransaction db backend) ⟨some rows, none, log⟩
      (fun _ s' => s' = ⟨some rows, some rows, log ++ beginCommands backend⟩)
      (fun _ s' => s'.committed = some rows) := by
  apply Meets.bind
    (Q := fun _ s' => s' = ⟨some rows, some rows, log ++ [.beginTransaction]⟩)
  · apply send_meets
    · rfl
    · exact fun e => rfl
  rintro _ s' rfl
  have hlock : Meets (send db .lock) ⟨some rows, some rows, log ++ [.beginTransaction]⟩
      (fun _ s' => s' = ⟨some rows, some rows, log ++ [.beginTransaction, .lock]⟩)
      (fun _ s' => s'.committed = some rows) := by
    apply send_meets
    · simp [MigrationCommand.effect]
    · exact fun e => rfl
  cases backend with
  | sqlite => exact Meets.pure rfl
  | postgres | mySql | sqlServer => exact hlock

/-- Reading the table leaves all but the log. -/
lemma appliedMigrations_meets {table : MigrationTable} (hvisible : s.visible = some table) :
    Meets (appliedMigrations db) s
      (fun applied s' => applied.versions.Perm table.versions ∧ applied.versions.Nodup ∧
        s' = { s with log := s.log ++ [.select] })
      (fun _ s' => s'.committed = s.committed) := by
  apply Meets.bind (Q := fun read s' => read = db.order table ∧
    s' = { s with log := s.log ++ [.select] })
  · apply Meets.bind (Q := fun _ s' => s' = { s with log := s.log ++ [.select] })
    · apply send_meets
      · rfl
      · exact fun e => rfl
    · rintro _ s' rfl
      apply Meets.get_bind
      have hread : ({ s with log := s.log ++ [.select] } : MigrationState).visible = some table :=
        hvisible
      rw [hread]
      exact ⟨rfl, rfl⟩
  · rintro _ s' ⟨rfl, rfl⟩
    apply Meets.ofExcept
    · intro applied hread
      obtain ⟨hversions, hnodup⟩ := readAll_eq_ok hread
      refine ⟨?_, hnodup nodup_nil, rfl⟩
      rw [hversions]
      exact (db.order_perm table).filterMap _
    · exact fun e _ => rfl

/-! ## Applying -/

/-- The commands that apply a migration. -/
def upCommands (m : MigrationDefinition) : List MigrationCommand :=
  [.script m.up, .insert m.version m.name m.checksum]

/-- The commands that revert a migration. -/
def downCommands (m : MigrationDefinition) : List MigrationCommand :=
  [.script m.down, .delete m.version]

variable (committed working : MigrationTable)

lemma applyMigrations_meets (log : List MigrationCommand) (steps : List MigrationDefinition) :
    Meets (steps.foldlM (applyMigration db) 0) ⟨some committed, some working, log⟩
      (fun count s' => count = steps.length ∧ ∃ rows,
        MigrationTable.versions rows = working.versions ++ steps.map MigrationDefinition.version ∧
        s' = ⟨some committed, some rows, log ++ steps.flatMap upCommands⟩)
      (fun _ s' => s'.committed = some committed) := by
  apply Meets.foldlM (I := fun done count (s' : MigrationState) => count = done.length ∧ ∃ rows,
    MigrationTable.versions rows = working.versions ++ done.map MigrationDefinition.version ∧
    s' = ⟨some committed, some rows, log ++ done.flatMap upCommands⟩)
  · rintro done m rest _ _ - ⟨rfl, rows, hrows, rfl⟩
    apply Meets.bind (Q := fun _ s' =>
      s' = ⟨some committed, some rows, log ++ done.flatMap upCommands ++ [.script m.up]⟩)
    · apply send_meets
      · rfl
      · exact fun e => rfl
    · rintro _ s' rfl
      apply Meets.bind (Q := fun _ s' => s' = ⟨some committed,
        some (rows ++ [[.int m.version, .string m.name, .string m.checksum]]),
        log ++ (done ++ [m]).flatMap upCommands⟩)
      · apply send_meets
        · simp [MigrationCommand.effect, MigrationState.modify, upCommands]
        · exact fun e => rfl
      · rintro _ s' rfl
        refine Meets.pure ⟨by simp, _, ?_, rfl⟩
        rw [versions_append, hrows, append_assoc]
        simp [MigrationTable.versions, rowVersion, m.version_pos]
  · simp

lemma revertMigrations_meets (log : List MigrationCommand) {steps : List MigrationDefinition}
    (hfind : ∀ m ∈ steps, (migrations.find? fun m' => m'.version == m.version) = some m) :
    Meets ((steps.map MigrationDefinition.version).foldlM (revertMigration db migrations) 0)
      ⟨some committed, some working, log⟩
      (fun count s' => count = steps.length ∧ ∃ rows,
        MigrationTable.versions rows = working.versions.filter
          (fun v => decide (v ∉ steps.map MigrationDefinition.version)) ∧
        s' = ⟨some committed, some rows, log ++ steps.flatMap downCommands⟩)
      (fun _ s' => s'.committed = some committed) := by
  rw [foldlM_map]
  apply Meets.foldlM (I := fun done count (s' : MigrationState) => count = done.length ∧ ∃ rows,
    MigrationTable.versions rows = working.versions.filter
      (fun v => decide (v ∉ done.map MigrationDefinition.version)) ∧
    s' = ⟨some committed, some rows, log ++ done.flatMap downCommands⟩)
  · rintro done m rest _ _ hsteps ⟨rfl, rows, hrows, rfl⟩
    have hm : m ∈ steps := by simp [hsteps]
    unfold revertMigration
    rw [hfind m hm]
    apply Meets.bind (Q := fun _ s' =>
      s' = ⟨some committed, some rows, log ++ done.flatMap downCommands ++ [.script m.down]⟩)
    · apply send_meets
      · rfl
      · exact fun e => rfl
    · rintro _ s' rfl
      apply Meets.bind (Q := fun _ s' => s' = ⟨some committed,
        some (rows.filter fun row => !isVersion m.version row),
        log ++ (done ++ [m]).flatMap downCommands⟩)
      · apply send_meets
        · simp [MigrationCommand.effect, MigrationState.modify, downCommands]
        · exact fun e => rfl
      · rintro _ s' rfl
        refine Meets.pure ⟨by simp, _, ?_, rfl⟩
        rw [versions_delete m.version_pos, hrows, filter_filter]
        apply filter_congr
        intro v _
        by_cases hv : v = m.version <;> simp [hv]
  · simp

/-! ## The plan -/

/-- The migrations up to the target that are not applied, from the lowest. -/
def missing (set : MigrationSet) (applied : List Int64) (target : Int64) :
    List MigrationDefinition :=
  set.migrations.filter fun m => decide (m.version ∉ applied ∧ m.version ≤ target)

/-- The applied migrations above the target, from the highest. -/
def surplus (set : MigrationSet) (applied : List Int64) (target : Int64) :
    List MigrationDefinition :=
  (set.migrations.filter fun m => decide (m.version ∈ applied ∧ target < m.version)).reverse

/-- The versions are the local ones up to `top`. -/
def Stands (set : MigrationSet) (versions : List Int64) (top : Int64) : Prop :=
  ∀ v, v ∈ versions ↔ ∃ m ∈ set.migrations, m.version = v ∧ v ≤ top

section Plan

variable {set : MigrationSet} {versions : List Int64} {top target : Int64}

section

variable (h : Stands set versions top)

include h

lemma Stands.mem_iff (hm : m ∈ set.migrations) : m.version ∈ versions ↔ m.version ≤ top := by
  rw [h m.version]
  constructor
  · rintro ⟨_, -, -, hle⟩
    exact hle
  · exact fun hle => ⟨m, hm, rfl, hle⟩

lemma missing_eq_filter : missing set versions target =
      set.migrations.filter fun m => top < m.version && m.version ≤ target := by
  apply filter_congr
  intro m hm
  simp [h.mem_iff hm]

lemma missing_eq_nil (hle : target ≤ top) : missing set versions target = [] := by
  rw [missing_eq_filter h, filter_eq_nil_iff]
  intro m _
  simp only [Bool.and_eq_true, decide_eq_true_eq, not_and, not_le]
  exact fun hlt => hle.trans_lt hlt

lemma surplus_eq_nil (hle : top ≤ target) : surplus set versions target = [] := by
  rw [surplus, reverse_eq_nil_iff, filter_eq_nil_iff]
  intro m hm
  simp only [h.mem_iff hm, decide_eq_true_eq, not_and, not_lt]
  exact fun hm => hm.trans hle

end

lemma surplus_congr {versions' : List Int64} (h : ∀ v, v ∈ versions' ↔ v ∈ versions) :
    surplus set versions' target = surplus set versions target := by
  unfold surplus
  congr 1
  apply filter_congr
  intro m _
  simp [h m.version]

/-- Applying what is missing brings the versions up to the target. -/
lemma Stands.up (h : Stands set versions top) (hle : top ≤ target) :
    Stands set (versions ++ (missing set versions target).map MigrationDefinition.version)
      target := by
  intro v
  rw [mem_append, h v, missing_eq_filter h, mem_map]
  constructor
  · rintro (⟨m, hm, hv, hv'⟩ | ⟨m, hm, hv⟩)
    · exact ⟨m, hm, hv, hv'.trans hle⟩
    · rw [mem_filter, Bool.and_eq_true, decide_eq_true_eq, decide_eq_true_eq] at hm
      exact ⟨m, hm.1, hv, hv ▸ hm.2.2⟩
  · rintro ⟨m, hm, rfl, hv⟩
    by_cases htop : m.version ≤ top
    · exact .inl ⟨m, hm, rfl, htop⟩
    · exact .inr ⟨m, by simp [hm, hv, not_le.mp htop], rfl⟩

/-- Reverting what is surplus brings the versions down to the target. -/
lemma Stands.down (h : Stands set versions top) (hle : target ≤ top) :
    Stands set (versions.filter fun v =>
      decide (v ∉ (surplus set versions target).map MigrationDefinition.version)) target := by
  intro v
  rw [mem_filter, h v, decide_eq_true_eq]
  constructor
  · rintro ⟨⟨m, hm, rfl, hv⟩, hkept⟩
    refine ⟨m, hm, rfl, ?_⟩
    by_contra habove
    apply hkept
    apply mem_map_of_mem
    rw [surplus, mem_reverse, mem_filter, decide_eq_true_eq, h.mem_iff hm]
    exact ⟨hm, hv, not_le.mp habove⟩
  · rintro ⟨m, hm, rfl, hv⟩
    refine ⟨⟨m, hm, rfl, hv.trans hle⟩, ?_⟩
    intro hgone
    obtain ⟨m', hm', heq⟩ := mem_map.mp hgone
    rw [surplus, mem_reverse, mem_filter, decide_eq_true_eq, heq] at hm'
    exact absurd hm'.2.2 (not_lt.mpr hv)

end Plan

/-- A migration is the one that is found by its version. -/
lemma find?_version (set : MigrationSet) (hm : m ∈ set.migrations) :
    (set.migrations.find? fun m' => m'.version == m.version) = some m := by
  have hfound : ((set.migrations.find? fun m' => m'.version == m.version)).isSome := by
    rw [List.find?_isSome]
    exact ⟨m, hm, by simp⟩
  obtain ⟨m', hm'⟩ := Option.isSome_iff_exists.mp hfound
  rw [hm']
  have hversion : m'.version = m.version := by simpa using List.find?_some hm'
  have hnodup : (set.migrations.map MigrationDefinition.version).Nodup :=
    pairwise_map.mpr (set.ascending.imp ne_of_lt)
  exact congrArg some (inj_on_of_nodup_map hnodup (mem_of_find?_eq_some hm') hm hversion)

/-- Versions in descending order are those of the reversed migrations. -/
lemma descending_eq (set : MigrationSet) {versions : List Int64} (hnodup : versions.Nodup)
    (hlocal : ∀ v ∈ versions, ∃ m ∈ set.migrations, m.version = v) (target : Int64) :
    (descending versions).filter (fun v => decide (target < v)) =
      (surplus set versions target).map MigrationDefinition.version := by
  have hsorted : ((descending versions).filter fun v => decide (target < v)).Pairwise
      fun left right => right ≤ left := by
    apply List.Pairwise.filter
    exact sortedGE_insertionSort.pairwise
  have hreversed : ((surplus set versions target).map MigrationDefinition.version).Pairwise
      fun left right => right < left := by
    rw [pairwise_map, surplus, pairwise_reverse]
    exact set.ascending.filter _
  refine List.Perm.eq_of_pairwise ?_ hsorted (hreversed.imp le_of_lt) ?_
  · exact fun a b _ _ hba hab => le_antisymm hab hba
  rw [perm_ext_iff_of_nodup]
  · intro v
    simp only [mem_filter, descending, mem_insertionSort, decide_eq_true_eq, surplus,
      mem_map, mem_reverse]
    constructor
    · rintro ⟨hv, hlt⟩
      obtain ⟨m, hm, rfl⟩ := hlocal v hv
      exact ⟨m, ⟨hm, hv, hlt⟩, rfl⟩
    · rintro ⟨m, ⟨-, hv, hlt⟩, rfl⟩
      exact ⟨hv, hlt⟩
  · exact ((perm_insertionSort _ versions).nodup_iff.mpr hnodup).filter _
  · exact hreversed.imp fun hlt => (ne_of_lt hlt).symm

/-! ## Runs -/

/-- What a transaction that reaches the target has done to its copy of the table, and the
commands it has sent. -/
structure Reached (set : MigrationSet) (target : Int64) (committed working : MigrationTable)
    (log : List MigrationCommand) (count : Nat) (s : MigrationState) : Prop where
  state : ∃ rows, s = ⟨some committed, some rows,
      log ++ [.select] ++ (missing set working.versions target).flatMap upCommands ++
        (surplus set working.versions target).flatMap downCommands⟩ ∧
    Stands set (MigrationTable.versions rows) target
  count : count = (missing set working.versions target).length +
    (surplus set working.versions target).length
  valid : ∃ top, Stands set working.versions top

/-- What the transaction does to its copy of the table, and which scripts it runs. -/
theorem runMigrations_meets (set : MigrationSet) (target : Int64)
    (committed working : MigrationTable) (log : List MigrationCommand) :
    Meets (runMigrations db set.migrations target) ⟨some committed, some working, log⟩
      (Reached set target committed working log) (fun _ s' => s'.committed = some committed) := by
  apply Meets.bind (appliedMigrations_meets rfl)
  rintro applied s' ⟨hperm, hnodup, rfl⟩
  apply Meets.bind (Q := fun _ s' => Stands set working.versions applied.current ∧
    s' = ⟨some committed, some working, log ++ [.select]⟩)
  · apply Meets.ofExcept
    · intro _ hvalid
      refine ⟨?_, rfl⟩
      intro v
      rw [← hperm.mem_iff]
      exact validated_versions hvalid v
    · exact fun e _ => rfl
  · rintro _ s' ⟨hstands, rfl⟩
    by_cases heq : target = applied.current
    · subst heq
      rw [if_pos rfl]
      apply Meets.pure
      have hmissing := missing_eq_nil hstands (le_refl applied.current)
      have hsurplus := surplus_eq_nil hstands (le_refl applied.current)
      exact ⟨⟨working, by simp [hmissing, hsurplus], hstands⟩, by simp [hmissing, hsurplus],
        _, hstands⟩
    · rw [if_neg heq]
      by_cases hup : applied.current < target
      · rw [if_pos hup, ← missing_eq_filter hstands]
        apply (applyMigrations_meets committed working _ _).mono
        · rintro count s' ⟨hcount, rows, hrows, rfl⟩
          have hsurplus := surplus_eq_nil hstands hup.le
          refine ⟨⟨rows, by simp [hsurplus], ?_⟩, by simp [hsurplus, hcount], _, hstands⟩
          rw [hrows]
          exact hstands.up hup.le
        · exact fun e s' hs' => hs'
      · have hdown : target ≤ applied.current := not_lt.mp hup
        have hmem : ∀ v, v ∈ db.order applied.versions ↔ v ∈ working.versions := by
          intro v
          rw [(db.order_perm applied.versions).mem_iff, hperm.mem_iff]
        have hlocal : ∀ v ∈ db.order applied.versions, ∃ m ∈ set.migrations, m.version = v := by
          intro v hv
          obtain ⟨m, hm, hversion, -⟩ := (hstands v).mp ((hmem v).mp hv)
          exact ⟨m, hm, hversion⟩
        have hnodup' := (db.order_perm applied.versions).nodup_iff.mpr hnodup
        rw [if_neg hup, descending_eq set hnodup' hlocal target, surplus_congr hmem]
        apply (revertMigrations_meets committed working _ _).mono
        · rintro count s' ⟨hcount, rows, hrows, rfl⟩
          have hmissing := missing_eq_nil hstands hdown
          refine ⟨⟨rows, by simp [hmissing], ?_⟩, by simp [hmissing, hcount], _, hstands⟩
          rw [hrows]
          exact hstands.down hdown
        · exact fun e s' hs' => hs'
        · intro m hm
          rw [surplus, mem_reverse] at hm
          exact find?_version set (mem_of_mem_filter hm)

/-- What is sent before the plan is known. -/
def openingCommands (backend : SqlBackend) : List MigrationCommand :=
  [.createTable, .insertLock] ++ beginCommands backend ++ [.select]

/-- What a call that succeeds has done. -/
structure Migrated (backend : SqlBackend) (set : MigrationSet) (target : Int64)
    (s : MigrationState) (count : Nat) (s' : MigrationState) : Prop where
  idle : s'.working = none
  stands : Stands set s'.applied target
  log : s'.log = s.log ++ openingCommands backend ++
    (missing set s.applied target).flatMap upCommands ++
    (surplus set s.applied target).flatMap downCommands ++ [.commit]
  count : count = (missing set s.applied target).length + (surplus set s.applied target).length
  valid : ∃ top, Stands set s.applied top

variable (db) in
lemma migrateTo_meets (backend : SqlBackend) (set : MigrationSet) (target : Int64)
    (hidle : s.working = none) :
    Meets (migrateTo db backend set target) s (Migrated backend set target s)
      (fun _ s' => s'.applied = s.applied) := by
  apply Meets.bind (ensureMigrationTable_meets hidle)
  rintro _ s' ⟨rows, hrows, rfl⟩
  -- as long as the table is the one the transaction began with, nothing has changed
  have hkept : ∀ s' : MigrationState, s'.committed = some rows → s'.applied = s.applied := by
    intro s' hs'
    rw [MigrationState.applied, hs']
    exact hrows
  apply Meets.bind
    ((beginMigrationTransaction_meets backend _).mono (fun _ _ h => h) fun _ s' => hkept s')
  rintro _ s' rfl
  apply Meets.bind (Meets.observe (runMigrations_meets set target rows rows _))
  rintro result s' hresult
  cases result with
  | ok count =>
    obtain ⟨⟨rows', rfl, hstands⟩, hcount, hvalid⟩ := hresult
    rw [hrows] at hcount hvalid
    apply Meets.bind (Q := fun _ s' => Migrated backend set target s count s')
    · apply send_meets
      · refine ⟨rfl, hstands, ?_, hcount, hvalid⟩
        simp [MigrationCommand.effect, openingCommands, hrows]
      · exact fun e => hkept _ rfl
    · exact fun _ s' hs' => Meets.pure hs'
  | error e => ?_
  have hrollback : Meets (send db .rollback) s' (fun _ s' => s'.committed = some rows)
      (fun _ s' => s'.committed = some rows) := by
    apply send_meets
    · exact hresult
    · exact fun e => hresult
  apply Meets.bind (Meets.observe hrollback)
  rintro (e' | a) s' hs'
  · exact Meets.throw (hkept s' hs')
  · exact Meets.throw (hkept s' hs')

/-! ## The calls -/

/-- The scripts among the commands. -/
def scripts (log : List MigrationCommand) : List String :=
  log.filterMap fun command => match command with
    | .script sql => some sql
    | _ => none

lemma scripts_append (log log' : List MigrationCommand) :
    scripts (log ++ log') = scripts log ++ scripts log' :=
  filterMap_append

lemma scripts_opening (backend : SqlBackend) : scripts (openingCommands backend) = [] := by
  cases backend with
  | sqlite => rfl
  | postgres => rfl
  | mySql => rfl
  | sqlServer => rfl

variable (steps : List MigrationDefinition)

lemma scripts_up : scripts (steps.flatMap upCommands) = steps.map MigrationDefinition.up := by
  induction steps with
  | nil => rfl
  | cons m rest ih =>
    rw [flatMap_cons, scripts_append, ih]
    rfl

lemma scripts_down : scripts (steps.flatMap downCommands) = steps.map MigrationDefinition.down := by
  induction steps with
  | nil => rfl
  | cons m rest ih =>
    rw [flatMap_cons, scripts_append, ih]
    rfl

/-- The scripts of a call, in the order in which they ran. -/
lemma Migrated.scripts_eq {backend : SqlBackend} {set : MigrationSet} {target : Int64}
    {count : Nat} (h : Migrated backend set target s count s') :
    scripts (s'.log.drop s.log.length) =
      (missing set s.applied target).map MigrationDefinition.up ++
        (surplus set s.applied target).map MigrationDefinition.down := by
  rw [h.log]
  simp only [append_assoc, drop_left]
  rw [scripts_append, scripts_append, scripts_append, scripts_opening, scripts_up, scripts_down]
  simp [scripts]

/-- All that was applied is reverted in the opposite order. -/
lemma surplus_zero {set : MigrationSet} {versions : List Int64} {target : Int64}
    (h : Stands set versions target) : surplus set versions 0 = (missing set [] target).reverse := by
  unfold surplus missing
  congr 1
  apply filter_congr
  intro m hm
  simp [h.mem_iff hm, m.version_pos]

/-- After a call that succeeds the local versions up to the target are applied, and the
scripts in between ran once each, upwards from the lowest or downwards from the highest.
After a call that fails the same versions are applied as before. Going up from nothing
and back to zero runs the scripts down in the reverse order of those up. -/
theorem migrateTo_correct (db : MigrationDatabase) (backend : SqlBackend) (set : MigrationSet)
    (target : Int64) (s : MigrationState) (hidle : s.working = none) :
    (∀ count s', migrateTo db backend set target s = .ok count s' →
      (∀ v, v ∈ s'.applied ↔ ∃ m ∈ set.migrations, m.version = v ∧ v ≤ target) ∧
      s'.log = s.log ++ openingCommands backend ++
        (missing set s.applied target).flatMap upCommands ++
        (surplus set s.applied target).flatMap downCommands ++ [.commit]) ∧
    (∀ e s', migrateTo db backend set target s = .error e s' → s'.applied = s.applied) ∧
    (s.applied = [] → ∀ count s₁ count' s₂, migrateTo db backend set target s = .ok count s₁ →
      migrateTo db backend set 0 s₁ = .ok count' s₂ →
      ∃ order : List MigrationDefinition,
        scripts (s₁.log.drop s.log.length) = order.map MigrationDefinition.up ∧
        scripts (s₂.log.drop s₁.log.length) = order.reverse.map MigrationDefinition.down) := by
  have hmeets := migrateTo_meets db backend set target hidle
  refine ⟨?_, ?_, ?_⟩
  · intro count s' hok
    have hdone := hmeets.ok hok
    exact ⟨hdone.stands, hdone.log⟩
  · exact fun e s' herror => hmeets.error herror
  intro hempty count s₁ count' s₂ hup hdown
  have hfirst := hmeets.ok hup
  have hsecond := (migrateTo_meets db backend set 0 hfirst.idle).ok hdown
  refine ⟨missing set [] target, ?_, ?_⟩
  · have hnone : surplus set [] target = [] := by simp [surplus]
    rw [hfirst.scripts_eq, hempty, hnone, map_nil, append_nil]
  · have hnone : missing set s₁.applied 0 = [] := by
      rw [missing, filter_eq_nil_iff]
      intro m _
      simp [m.version_pos]
    rw [hsecond.scripts_eq, hnone, surplus_zero hfirst.stands, map_nil, nil_append]

/-- A database on which no command fails. -/
def calmDatabase : MigrationDatabase where
  failure := fun _ => none
  order := id
  order_perm := fun items => List.Perm.refl items

/-- Two migrations. -/
def sampleSet : MigrationSet where
  migrations :=
    [⟨1, "users", "CREATE TABLE users (id INTEGER)", "DROP TABLE users", "a", by decide⟩,
      ⟨2, "posts", "CREATE TABLE posts (id INTEGER)", "DROP TABLE posts", "b", by decide⟩]
  ascending := by
    rw [pairwise_pair]
    decide

/-- The database with both migrations. -/
def sampleApplied : MigrationState where
  committed := some
    [lockRow, [.int 1, .string "users", .string "a"], [.int 2, .string "posts", .string "b"]]
  working := none
  log := []

/-- Both migrations are reverted, the second one first. -/
theorem migrateTo_correct_sample :
    ∃ s', migrateTo calmDatabase .sqlite sampleSet 0 sampleApplied = .ok 2 s' ∧
      (∀ v, v ∈ s'.applied ↔ ∃ m ∈ sampleSet.migrations, m.version = v ∧ v ≤ 0) ∧
      scripts s'.log = ["DROP TABLE posts", "DROP TABLE users"] := by
  obtain ⟨hok, -⟩ := migrateTo_correct calmDatabase .sqlite sampleSet 0 sampleApplied rfl
  refine ⟨_, rfl, (hok _ _ rfl).1, rfl⟩

/-! ## One target after another -/

/-- Where calls with these targets lead from `s`. -/
def LedTo (set : MigrationSet) (s : MigrationState) (targets : List Int64)
    (s' : MigrationState) : Prop :=
  match targets.getLast? with
  | none => s'.applied = s.applied
  | some target => Stands set s'.applied target

lemma LedTo.cons {set : MigrationSet} {target : Int64} {targets : List Int64} {s₁ : MigrationState}
    (hfirst : Stands set s₁.applied target) (h : LedTo set s₁ targets s') :
    LedTo set s (target :: targets) s' := by
  unfold LedTo at h ⊢
  rw [getLast?_cons]
  cases hlast : targets.getLast? with
  | none =>
    rw [hlast] at h
    exact h ▸ hfirst
  | some last =>
    rw [hlast] at h
    exact h

/-- Migrations to any targets, one after another, end at the last target; if a call fails,
they end where the calls before it have led. -/
theorem migrations_in_sequence (db : MigrationDatabase) (backend : SqlBackend) (set : MigrationSet)
    (targets : List Int64) (count : Nat) (s : MigrationState) (hidle : s.working = none) :
    Meets (targets.foldlM (fun _ target => migrateTo db backend set target) count) s
      (fun _ => LedTo set s targets)
      (fun _ s' => ∃ done, done <+: targets ∧ done ≠ targets ∧ LedTo set s done s') := by
  induction targets generalizing s count with
  | nil => exact Meets.pure rfl
  | cons target rest ih =>
    rw [foldlM_cons]
    apply Meets.bind
    · apply (migrateTo_meets db backend set target hidle).mono
      · exact fun _ _ h => h
      · exact fun _ s' h => ⟨[], nil_prefix, (cons_ne_nil _ _).symm, h⟩
    · intro count s₁ hfirst
      apply (ih count s₁ hfirst.idle).mono
      · exact fun _ _ h => h.cons hfirst.stands
      · rintro _ s' ⟨done, hdone, hne, h⟩
        exact ⟨target :: done, (prefix_cons_inj target).mpr hdone, by simpa using hne,
          h.cons hfirst.stands⟩

/-- Back from two migrations, one at a time. -/
theorem migrations_in_sequence_sample : ∃ s',
    [1, 0].foldlM (fun _ target => migrateTo calmDatabase .sqlite sampleSet target) 0
      sampleApplied = .ok 1 s' ∧ LedTo sampleSet sampleApplied [1, 0] s' := by
  have hrun : (match [1, 0].foldlM
      (fun _ target => migrateTo calmDatabase .sqlite sampleSet target) 0 sampleApplied with
    | .ok count _ => count
    | .error _ _ => 0) = 1 := by decide +kernel
  -- the targets are hidden so that the calls are not run again
  generalize ([1, 0] : List Int64) = targets at hrun ⊢
  have hmeets := migrations_in_sequence calmDatabase .sqlite sampleSet targets 0 sampleApplied rfl
  cases h : targets.foldlM (fun _ target => migrateTo calmDatabase .sqlite sampleSet target) 0
    sampleApplied with
  | ok count s' =>
    rw [h] at hrun
    exact ⟨s', congrArg (EStateM.Result.ok · s') hrun, hmeets.ok h⟩
  | error e s' =>
    rw [h] at hrun
    cases hrun

/-! ## Rolling back -/

/-- Commands were sent, and none of them is a rollback. -/
def Unrolled (s s' : MigrationState) : Prop :=
  ∃ sent, s'.log = s.log ++ sent ∧ .rollback ∉ sent

lemma effect_log (command : MigrationCommand) (s : MigrationState) :
    (command.effect s).log = s.log := by
  cases command <;> grind [MigrationCommand.effect, MigrationState.modify]

lemma Unrolled.send {command : MigrationCommand} (h : Unrolled s s') (hne : .rollback ≠ command) :
    Meets (send db command) s' (fun _ => Unrolled s) (fun _ => Unrolled s) := by
  rcases h with ⟨sent, hlog, hnot⟩
  have hsent : ∀ t : MigrationState, t.log = s'.log ++ [command] → Unrolled s t := by
    intro t ht
    refine ⟨sent ++ [command], ?_, ?_⟩
    · rw [ht, hlog, append_assoc]
    · simpa [hne] using hnot
  apply send_meets
  · exact hsent _ (effect_log _ _)
  · exact fun e => hsent _ rfl

lemma Unrolled.runMigrations (hstart : Unrolled s s') (target : Int64) :
    Meets (runMigrations db migrations target) s' (fun _ => Unrolled s) (fun _ => Unrolled s) := by
  apply Meets.bind (Q := fun _ => Unrolled s)
  · apply Meets.bind (Q := fun _ => Unrolled s)
    · apply Meets.bind (hstart.send (by decide))
      intro _ s' h
      apply Meets.get_bind
      split
      · exact Meets.throw h
      · exact Meets.pure h
    · exact fun rows s' h => Meets.ofExcept (fun _ _ => h) (fun _ _ => h)
  · intro applied s' h
    apply Meets.ofExcept_bind
    · intro _ _
      dsimp only
      split_ifs
      · exact Meets.pure h
      · apply Meets.foldlM (I := fun _ _ => Unrolled s) _ h
        intro _ m _ _ s' _ h
        apply Meets.bind (h.send (by simp))
        intro _ s' h
        apply Meets.bind (h.send (by simp))
        exact fun _ s' h => Meets.pure h
      · apply Meets.foldlM (I := fun _ _ => Unrolled s) _ h
        intro _ version _ _ s' _ h
        unfold revertMigration
        split
        · exact Meets.throw h
        apply Meets.bind (h.send (by simp))
        intro _ s' h
        apply Meets.bind (h.send (by simp))
        exact fun _ s' h => Meets.pure h
    · exact fun _ _ => h

/-- The table is there and the transaction is begun. -/
structure Begins (db : MigrationDatabase) (s s₀ s₁ : MigrationState) : Prop where
  ensured : ensureMigrationTable db s = .ok () s₀
  begun : send db .beginTransaction s₀ = .ok () s₁

/-- Neither the lock after the beginning nor the commit of what ran well fails. -/
structure Completes (db : MigrationDatabase) (backend : SqlBackend) (set : MigrationSet)
    (target : Int64) (s₀ s₁ : MigrationState) : Prop where
  locked : backend ≠ .sqlite → db.failure (s₁.log ++ [.lock]) = none
  committed : ∀ s₂ count s₃, beginMigrationTransaction db backend s₀ = .ok () s₂ →
    runMigrations db set.migrations target s₂ = .ok count s₃ →
      db.failure (s₃.log ++ [.commit]) = none

/-- A rollback is among the commands that were sent since. -/
def RolledBack (s s' : MigrationState) : Prop :=
  ∃ sent, s'.log = s.log ++ sent ∧ .rollback ∈ sent

lemma Unrolled.not_rolledBack (h : Unrolled s s') : ¬ RolledBack s s' := by
  rintro ⟨sent, hlog, hmem⟩
  rcases h with ⟨sent', hlog', hnot⟩
  have hsame : sent' = sent := append_cancel_left (hlog'.symm.trans hlog)
  exact hnot (hsame ▸ hmem)

variable {backend : SqlBackend} {set : MigrationSet} {target : Int64} {s₀ s₁ : MigrationState}

lemma Begins.lock (h : Begins db s s₀ s₁) :
    (backend = .sqlite ∧ beginMigrationTransaction db backend s₀ = .ok () s₁) ∨
      (backend ≠ .sqlite ∧ beginMigrationTransaction db backend s₀ = send db .lock s₁) := by
  have hbegun := h.begun
  cases backend <;> simp_all [beginMigrationTransaction, bind, EStateM.bind, pure, EStateM.pure]

lemma Begins.unrolled (h : Begins db s s₀ s₁) :
    Meets (beginMigrationTransaction db backend) s₀ (fun _ => Unrolled s₁)
      (fun _ => Unrolled s₁) := by
  have hstart : Unrolled s₁ s₁ := ⟨[], (append_nil _).symm, not_mem_nil⟩
  unfold Meets
  rcases h.lock with ⟨_, hopen⟩ | ⟨_, hopen⟩
  · rw [hopen]
    exact hstart
  · rw [hopen]
    exact hstart.send (by decide)

/-- What follows an opened transaction. -/
lemma migrateTo_opened {s₂ : MigrationState} (target : Int64)
    (hensured : ensureMigrationTable db s = .ok () s₀)
    (hopen : beginMigrationTransaction db backend s₀ = .ok () s₂) :
    (∃ count s₃, runMigrations db set.migrations target s₂ = .ok count s₃ ∧
      migrateTo db backend set target s = (send db .commit >>= fun _ => pure count) s₃) ∨
    ∃ e s₃ s', runMigrations db set.migrations target s₂ = .error e s₃ ∧
      migrateTo db backend set target s = .error e s' ∧ s'.log = s₃.log ++ [.rollback] := by
  cases hrun : runMigrations db set.migrations target s₂ with
  | ok count s₃ =>
    refine .inl ⟨count, s₃, rfl, ?_⟩
    simp [migrateTo, bind, EStateM.bind, hensured, hopen, observe, hrun]
  | error e s₃ => ?_
  have heq : migrateTo db backend set target s =
      (observe (send db .rollback) >>= fun _ => throw e) s₃ := by
    simp [migrateTo, bind, EStateM.bind, hensured, hopen, observe, hrun]
  cases hfail : db.failure (s₃.log ++ [.rollback]) with
  | none =>
    refine .inr ⟨e, s₃, MigrationCommand.effect { s₃ with log := s₃.log ++ [.rollback] } .rollback,
      rfl, heq.trans ?_, rfl⟩
    simp [bind, EStateM.bind, observe, send, hfail]
    rfl
  | some e' =>
    refine .inr ⟨e, s₃, { s₃ with log := s₃.log ++ [.rollback] }, rfl, heq.trans ?_, rfl⟩
    simp [bind, EStateM.bind, observe, send, hfail]
    rfl

/-- A call that fails after its transaction was begun has sent a rollback exactly when neither
the lock nor the commit is what fails. -/
theorem migrateTo_rollback_iff (db : MigrationDatabase) (backend : SqlBackend) (set : MigrationSet)
    (target : Int64) (s : MigrationState) :
    (∀ s₀ s₁ e s', Begins db s s₀ s₁ → migrateTo db backend set target s = .error e s' →
      RolledBack s₁ s') ↔
    ∀ s₀ s₁, Begins db s s₀ s₁ → Completes db backend set target s₀ s₁ := by
  constructor
  · intro h s₀ s₁ hbegins
    refine ⟨fun hbackend => ?_, fun s₂ count s₃ hopen hrun => ?_⟩
    · rcases hfail : db.failure (s₁.log ++ [.lock]) with _ | e
      · exact hfail
      have hlock : beginMigrationTransaction db backend s₀ =
          .error e { s₁ with log := s₁.log ++ [.lock] } := by
        rcases hbegins.lock with ⟨hsqlite, _⟩ | ⟨_, hopen⟩
        · exact absurd hsqlite hbackend
        · rw [hopen, send, hfail]
      have herror := h s₀ s₁ e { s₁ with log := s₁.log ++ [.lock] } hbegins
        (by simp [migrateTo, bind, EStateM.bind, hbegins.ensured, hlock])
      exact absurd herror (hbegins.unrolled.error hlock).not_rolledBack
    · rcases hfail : db.failure (s₃.log ++ [.commit]) with _ | e
      · exact hfail
      have hcommit : send db .commit s₃ = .error e { s₃ with log := s₃.log ++ [.commit] } := by
        rw [send, hfail]
      rcases migrateTo_opened target hbegins.ensured hopen with
        ⟨count', s₃', hrun', heq⟩ | ⟨e', s₃', s', hrun', _⟩
      · cases hrun.symm.trans hrun'
        have herror := h s₀ s₁ e { s₃ with log := s₃.log ++ [.commit] } hbegins
          (by simp [heq, bind, EStateM.bind, hcommit])
        have hrolled := ((hbegins.unrolled.ok hopen).runMigrations target).ok hrun
        exact absurd herror ((hrolled.send (by decide)).error hcommit).not_rolledBack
      · cases hrun.symm.trans hrun'
  · intro h s₀ s₁ e s' hbegins herror
    have hcompletes := h s₀ s₁ hbegins
    have hopened : ∃ s₂, beginMigrationTransaction db backend s₀ = .ok () s₂ := by
      rcases hbegins.lock with ⟨_, hopen⟩ | ⟨hbackend, hopen⟩
      · exact ⟨s₁, hopen⟩
      · rw [hopen, send, hcompletes.locked hbackend]
        exact ⟨_, rfl⟩
    rcases hopened with ⟨s₂, hopen⟩
    rcases migrateTo_opened target hbegins.ensured hopen with
      ⟨count, s₃, hrun, heq⟩ | ⟨e', s₃, s'', hrun, heq, hlog⟩
    · -- the commit does not fail
      have hcommit := hcompletes.committed s₂ count s₃ hopen hrun
      rw [heq] at herror
      simp [bind, EStateM.bind, send, hcommit, pure, EStateM.pure] at herror
    · cases heq.symm.trans herror
      rcases ((hbegins.unrolled.ok hopen).runMigrations target).error hrun with ⟨sent, hsent, _⟩
      refine ⟨sent ++ [.rollback], ?_, by simp⟩
      rw [hlog, hsent, append_assoc]

/-- A server that does not grant the lock. -/
def lockedDatabase : MigrationDatabase where
  failure := fun log => if log.getLast? = some .lock then some "lock timeout" else none
  order := id
  order_perm := fun items => List.Perm.refl items

/-- The lock fails right after the beginning, and the transaction stays open. -/
theorem lock_leaves_transaction : ∃ s₀ s₁ s', Begins lockedDatabase ⟨none, none, []⟩ s₀ s₁ ∧
      migrateTo lockedDatabase .postgres sampleSet 2 ⟨none, none, []⟩ = .error "lock timeout" s' ∧
      s'.log = [.createTable, .insertLock, .beginTransaction, .lock] ∧ ¬ RolledBack s₁ s' := by
  refine ⟨_, _, _, ⟨rfl, rfl⟩, rfl, rfl, ?_⟩
  exact Unrolled.not_rolledBack ⟨[.lock], rfl, by decide⟩

/-! ## Checksums -/

open Utf8 in
/-- The bytes that are hashed. -/
def checksumBytes (up down : String) : List UInt8 :=
  ascii "mux-migration-v1" ++ [0] ++ ascii up ++ [0] ++ ascii down

/-- `hash` gives the digits of the SHA-256 hash. -/
def migrationChecksum (hash : List UInt8 → String) (up down : String) : String :=
  hash (checksumBytes up down)

/-- The end of one script up, after a zero, is the beginning of the other's script down. -/
def Shifted (up down up' down' : String) : Prop :=
  ∃ part : List Char, up'.toList = up.toList ++ '\x00' :: part ∧
    down.toList = part ++ '\x00' :: down'.toList

lemma checksumBytes_eq_iff {up down up' down' : String} :
    checksumBytes up down = checksumBytes up' down' ↔
      (up = up' ∧ down = down') ∨ Shifted up down up' down' ∨ Shifted up' down' up down := by
  have hzero : ∀ up down : String, checksumBytes up down =
      Utf8.encode ("mux-migration-v1".toList ++ '\x00' :: (up.toList ++ '\x00' :: down.toList)) := by
    intro up down
    have hbyte : String.utf8EncodeChar '\x00' = [0] := rfl
    simp [checksumBytes, Utf8.ascii, hbyte]
  have hinj : Function.Injective Utf8.encode := fun s t h =>
    Option.some.inj ((Str.fromUtf8_encode s).symm.trans ((congrArg Str.fromUtf8 h).trans
      (Str.fromUtf8_encode t)))
  rw [hzero, hzero, hinj.eq_iff, append_cancel_left_eq, List.cons.injEq, eq_self, true_and,
    append_eq_append_iff]
  rw [← String.toList_inj, ← String.toList_inj]
  constructor
  · rintro (⟨part, hup, hdown⟩ | ⟨part, hup, hdown⟩)
    · cases part with
      | nil => grind
      | cons c part => exact .inr (.inl ⟨part, by grind, by grind⟩)
    · cases part with
      | nil => grind
      | cons c part => exact .inr (.inr ⟨part, by grind, by grind⟩)
  · rintro (⟨hup, hdown⟩ | ⟨part, hup, hdown⟩ | ⟨part, hup, hdown⟩)
    · exact .inl ⟨[], by simp [hup], by simp [hdown]⟩
    · exact .inl ⟨'\x00' :: part, hup, by rw [hdown]; rfl⟩
    · exact .inr ⟨'\x00' :: part, hup, by rw [hdown]; rfl⟩

lemma migrationDefinition_checksum {checksum : String → String → String} {name up down : String}
    (h : migrationDefinition checksum version name up down = .ok m) :
    m.version = version ∧ m.name = name ∧ m.checksum = checksum up down := by
  unfold migrationDefinition at h
  split_ifs at h
  cases h
  exact ⟨rfl, rfl, rfl⟩

/-- A check that passes all items but one ends as on that one. -/
lemma forM_eq_of_mem {α : Type} {f : α → Except String Unit} {items : List α} {a : α}
    (ha : a ∈ items) (h : ∀ x ∈ items, x ≠ a → f x = .ok ()) : items.forM f = f a := by
  by_cases hf : f a = .ok ()
  · rw [hf, Loop.forM_eq_ok]
    intro x hx
    by_cases hxa : x = a
    · rw [hxa, hf]
    · exact h x hx hxa
  induction items with
  | nil => cases ha
  | cons x rest ih => ?_
  have hcons : (x :: rest).forM f = (f x >>= fun _ => rest.forM f) := rfl
  rw [hcons]
  by_cases hxa : x = a
  · subst hxa
    cases hfx : f x with
    | ok u => exact absurd hfx hf
    | error e => rfl
  · rw [h x mem_cons_self hxa]
    exact ih ((mem_cons.mp ha).resolve_left (Ne.symm hxa))
      fun y hy => h y (mem_cons_of_mem x hy)

lemma Shifted.ne {up down up' down' : String} (h : Shifted up down up' down') : up ≠ up' := by
  rintro rfl
  rcases h with ⟨part, hup, _⟩
  have hlength := congrArg List.length hup
  simp at hlength

/-- With a hash that tells two pairs of scripts apart, and all else in order, validation reports
a migration as changed exactly when its scripts are others, unless what one pair has after a zero
in its script up stands before a zero in the other's script down. -/
theorem change_reported_iff (db : MigrationDatabase) (hash : List UInt8 → String)
    (set : MigrationSet) (applied : Applied) (d d' : MigrationDefinition)
    (hd : migrationDefinition (migrationChecksum hash) d.version d.name d.up d.down = .ok d)
    (hd' : migrationDefinition (migrationChecksum hash) d.version d.name d'.up d'.down = .ok d')
    (hhash : hash (checksumBytes d.up d.down) = hash (checksumBytes d'.up d'.down) →
      checksumBytes d.up d.down = checksumBytes d'.up d'.down)
    (hmem : d' ∈ set.migrations) (hrecord : (d.version, ⟨d.name, d.checksum⟩) ∈ applied)
    (hothers : ∀ entry ∈ applied, entry ≠ (d.version, ⟨d.name, d.checksum⟩) →
      validateRecord set.migrations entry = .ok ())
    (hhistory : ∀ m ∈ set.migrations, m.version ≤ applied.current → m.version ∈ applied.versions) :
    (validateAppliedMigrations db applied set.migrations =
        .error ("migration " ++ toString d.version ++ " changed after it was applied") ↔
      d.up ≠ d'.up ∨ d.down ≠ d'.down) ↔
    ¬ Shifted d.up d.down d'.up d'.down ∧ ¬ Shifted d'.up d'.down d.up d.down := by
  rcases migrationDefinition_checksum hd with ⟨-, -, hsum⟩
  rcases migrationDefinition_checksum hd' with ⟨hversion, hname, hsum'⟩
  have hsame : d.checksum = d'.checksum ↔ checksumBytes d.up d.down = checksumBytes d'.up d'.down := by
    rw [hsum, hsum']
    exact ⟨hhash, congrArg hash⟩
  have hfirst : (db.order applied).forM (validateRecord set.migrations) =
      if d.checksum = d'.checksum then .ok () else
        .error ("migration " ++ toString d.version ++ " changed after it was applied") := by
    rw [forM_eq_of_mem ((db.order_perm applied).mem_iff.mpr hrecord)
      fun entry hentry => hothers entry ((db.order_perm applied).mem_iff.mp hentry)]
    have hfind := find?_version set hmem
    rw [hversion] at hfind
    by_cases hchecksum : d.checksum = d'.checksum
    · simp [validateRecord, hfind, hname, hchecksum]
    · simp [validateRecord, hfind, hchecksum]
  have hall : validateAppliedMigrations db applied set.migrations =
      if d.checksum = d'.checksum then .ok () else
        .error ("migration " ++ toString d.version ++ " changed after it was applied") := by
    unfold validateAppliedMigrations
    rw [hfirst]
    split_ifs with hchecksum
    · rcases hmax : applied.versions.max? with _ | highest
      · rfl
      refine Loop.forM_eq_ok.mpr fun m hm => ?_
      have hthere := hhistory m hm
      rw [Applied.current, hmax] at hthere
      exact if_neg (by simpa using hthere)
    · rfl
  rw [hall, ite_eq_iff]
  simp only [reduceCtorEq, and_false, and_true, false_or, hsame, checksumBytes_eq_iff]
  have hne : Shifted d.up d.down d'.up d'.down → d.up ≠ d'.up := Shifted.ne
  have hne' : Shifted d'.up d'.down d.up d.down → d'.up ≠ d.up := Shifted.ne
  grind

/-- The first migration, with these scripts. -/
def scripted (hash : List UInt8 → String) (up down : String) : MigrationDefinition :=
  ⟨1, "m", up, down, migrationChecksum hash up down, by decide⟩

/-- A hash that shows the bytes. -/
def plainHash (bytes : List UInt8) : String :=
  String.ofList (bytes.map fun b => Char.ofNat b.toNat)

/-- Two pairs of accepted scripts have the same bytes. -/
theorem zero_hides_change : migrationDefinition (migrationChecksum plainHash) 1 "m" "a\x00b" "c" =
        .ok (scripted plainHash "a\x00b" "c") ∧
      migrationDefinition (migrationChecksum plainHash) 1 "m" "a" "b\x00c" =
        .ok (scripted plainHash "a" "b\x00c") ∧
      validateAppliedMigrations calmDatabase
        [(1, ⟨"m", (scripted plainHash "a\x00b" "c").checksum⟩)]
        [scripted plainHash "a" "b\x00c"] = .ok () := by
  have hsame : (scripted plainHash "a\x00b" "c").checksum =
      (scripted plainHash "a" "b\x00c").checksum := rfl
  refine ⟨rfl, rfl, ?_⟩
  rfl

theorem change_reported_down :
    validateAppliedMigrations calmDatabase [(1, ⟨"m", (scripted plainHash "a" "b").checksum⟩)]
      [scripted plainHash "a" "c"] = .error "migration 1 changed after it was applied" := by
  refine ((change_reported_iff calmDatabase plainHash
    ⟨[scripted plainHash "a" "c"], pairwise_singleton _ _⟩ _ (scripted plainHash "a" "b")
    (scripted plainHash "a" "c") rfl rfl (by decide) mem_cons_self mem_cons_self
    ?_ ?_).mpr ⟨?_, ?_⟩).mpr (.inr (by decide))
  · intro entry hentry hne
    exact absurd (mem_singleton.mp hentry) hne
  · decide
  · exact fun h => h.ne rfl
  · exact fun h => h.ne rfl

end Sql
end MuxRuntime
