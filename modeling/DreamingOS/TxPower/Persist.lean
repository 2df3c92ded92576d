import DreamingOS.TxPower.Boot

namespace DreamingOS.TxPower

/-!
# Transmit power — persisting a mode

What `persistSelection` leaves in the two files.  A success names the mode in both
(`persistSelection_ok`).  After a failure for the regulatory mode, **exactly two** courses leave a
file at that mode that was not there before (`persistSelection_failed`):

* `Unsynced` — the boot file was replaced, but its directory is not synchronised: the failure is
  reported, and nothing takes the replacement back;
* `Unreverted` — the boot file was written, the selection was not, and the attempt to take either
  of them back has no effect.
-/

theorem selected_modeText (regulatory : Bool) :
    selected (some (modeText regulatory ++ ['\n'])) = some (modeText regulatory) := by
  cases regulatory <;> decide

theorem persistWrite_modeText (r : Replace) (file : File) (regulatory : Bool) :
    persistWrite r file (modeText regulatory) =
      (if r.takes then some (modeText regulatory ++ ['\n']) else file, r.takes && r.synced) := by
  unfold persistWrite
  rw [if_neg, atomicText_eq]
  cases regulatory <;> decide

variable {file : File} {mode : List Char}

theorem selected_of_persistRead {run : ReadRun}
    (h : persistRead run file = some mode) : selected file = some mode := by
  unfold selected
  cases run with
  | done => exact h
  | openFails => cases h
  | readFails => cases h

/-- A mode that is persisted is one of the two. -/
theorem eq_modeText_of_persistRead {run : ReadRun}
    (h : persistRead run file = some mode) : ∃ regulatory, mode = modeText regulatory := by
  have hsel := selected_of_persistRead h
  cases file with
  | none => cases hsel
  | some text =>
    replace hsel : parseMode text = some mode := hsel
    unfold parseMode at hsel
    dsimp only at hsel
    split at hsel
    · cases hsel
    split at hsel
    · cases hsel
    rename_i hmode
    have heq := Option.some.inj hsel
    rw [heq] at hmode
    by_cases hcal : mode = CALIBRATED
    · exact ⟨false, hcal⟩
    · exact ⟨true, by_contra fun hreg => hmode ⟨hcal, hreg⟩⟩

/-! ### A success -/

variable {regulatory : Bool}

/-- A file that is accepted before a call is clear, and stays so. -/
theorem bootConfig_ok {run : BootRun} (h : (bootConfig run file regulatory true).2 = true) :
    Clear (fileLines file) ∧ Names regulatory (bootConfig run file regulatory true).1 := by
  by_cases hclear : Clear (fileLines file)
  · refine ⟨hclear, ?_⟩
    rw [bootConfig_eq hclear] at h ⊢
    split at h
    · cases h
    rename_i hreads
    rw [if_neg hreads]
    split at h
    · next hnames =>
      rw [if_pos hnames]
      rcases hnames with hfalse | hnames
      · cases hfalse
      · exact hnames
    · next hnames =>
      rw [if_neg hnames, if_pos (by
        rw [Bool.and_eq_true] at h
        exact h.1)]
      exact names_written hclear regulatory
  · rw [bootConfig_of_not_clear hclear] at h
    cases h

/-- **A success names the mode in both files**, where the mode that was persisted before is known
    truly. -/
theorem persistSelection_ok {run : PersistRun} {files : Files} {previous : List Char}
    (hprev : previous = modeText regulatory → selected files.selection = some previous)
    (h : (persistSelection run files regulatory previous).2 = true) :
    Names regulatory (persistSelection run files regulatory previous).1.boot ∧
      selected (persistSelection run files regulatory previous).1.selection =
        some (modeText regulatory) := by
  unfold persistSelection at h ⊢
  dsimp only at h ⊢
  split at h
  · cases h
  rename_i hok
  have hboot : (bootConfig run.boot files.boot regulatory true).2 = true := by simpa using hok
  rw [if_neg hok]
  split at h
  · next heq =>
    rw [if_pos heq]
    exact ⟨(bootConfig_ok hboot).2, heq ▸ hprev heq⟩
  rename_i hne
  rw [if_neg hne]
  split at h
  · next hwrite =>
    rw [if_pos hwrite]
    rw [persistWrite_modeText] at hwrite ⊢
    rw [Bool.and_eq_true] at hwrite
    refine ⟨(bootConfig_ok hboot).2, ?_⟩
    rw [if_pos hwrite.1]
    exact selected_modeText regulatory
  · cases h

/-! ### A failure -/

/-- The boot file is replaced, and the failure to synchronise its directory reported. -/
def Unsynced (run : PersistRun) (files : Files) : Prop :=
  ¬ Armed files.boot ∧ run.boot.replaces files.boot = true ∧ run.boot.replace.synced = false

/-- The boot file names the regulatory mode, and its directory is synchronised. -/
def BootDone (run : PersistRun) (files : Files) : Prop :=
  run.boot.reads files.boot = true ∧
    (Names true files.boot ∨ run.boot.replace.takes = true ∧ run.boot.replace.synced = true)

/-- The selection is not written, and the boot file or the selection is not taken back. -/
def Unreverted (run : PersistRun) (files : Files) (previous : List Char) : Prop :=
  previous ≠ REGULATORY ∧ BootDone run files ∧ (run.write.takes && run.write.synced) = false ∧
    (¬ Armed files.boot ∧ run.revert.replaces (some []) = false ∨
      selected files.selection ≠ some REGULATORY ∧ run.write.takes = true ∧
        (if previous = [] then run.unlink else run.rewrite.takes) = false)

instance (run : PersistRun) (files : Files) : Decidable (BootDone run files) :=
  inferInstanceAs (Decidable (_ ∧ _))

/-- A file is at the regulatory mode that was not there before. -/
def NewlyRegulatory (before after : Files) : Prop :=
  (Armed after.boot ∧ ¬ Armed before.boot) ∨
    (selected after.selection = some REGULATORY ∧ selected before.selection ≠ some REGULATORY)

theorem not_newlyRegulatory_self (files : Files) : ¬ NewlyRegulatory files files := by
  rintro (⟨h, hn⟩ | ⟨h, hn⟩)
  · exact hn h
  · exact hn h

variable {run : PersistRun} {files : Files} {previous : List Char}

/-- The boot file after a call that succeeds. -/
theorem bootDone_iff (r : PersistRun) (hclear : Clear (fileLines files.boot)) :
    BootDone r files ↔ (bootConfig r.boot files.boot true true).2 = true := by
  unfold BootDone
  rw [bootConfig_eq hclear]
  by_cases hreads : r.boot.reads files.boot = false
  · simp [hreads]
  by_cases hnames : Names true files.boot
  · simp [hreads, hnames]
  · simp [hreads, hnames]

/-- The first failure: the boot file is not written, or is reported so. -/
theorem newly_of_boot_failed (hclear : Clear (fileLines files.boot)) (h : ¬ BootDone run files) :
    NewlyRegulatory files { files with boot := (bootConfig run.boot files.boot true true).1 } ↔
      Unsynced run files := by
  unfold BootDone at h
  unfold NewlyRegulatory Unsynced BootRun.replaces
  rw [bootConfig_eq hclear]
  have hsel : ¬ (selected files.selection = some REGULATORY ∧
      selected files.selection ≠ some REGULATORY) := fun h => h.2 h.1
  by_cases hreads : run.boot.reads files.boot = false
  · rw [if_pos hreads, hreads]
    simp
  rw [if_neg hreads]
  by_cases hnames : Names true files.boot
  · rw [if_pos (.inr hnames)]
    have harmed := hnames.armed
    simp [harmed]
  rw [if_neg (by simpa using hnames)]
  have hwritten := (names_written hclear true).armed
  by_cases htakes : run.boot.replace.takes = true
  · have hsynced : run.boot.replace.synced = false := by
      by_contra hsync
      exact h ⟨by simpa using hreads, .inr ⟨htakes, by simpa using hsync⟩⟩
    rw [if_pos htakes]
    simp_all
  · simp_all

/-- What the boot file is after its line has been taken back, or not. -/
theorem armed_reverted (hclear : Clear (fileLines files.boot)) (hdone : BootDone run files)
    (harmed : ¬ Armed files.boot) :
    Armed (bootConfig run.revert (bootConfig run.boot files.boot true true).1 false true).1 ↔
      run.revert.replaces (some []) = false := by
  have hnames : ¬ Names true files.boot := fun h => harmed h.armed
  obtain ⟨hreads, hnames' | ⟨htakes, -⟩⟩ := hdone
  · exact absurd hnames' hnames
  have hboot : (bootConfig run.boot files.boot true true).1 =
      some (written true (files.boot.getD [])) := by
    rw [bootConfig_eq hclear, if_neg (by rw [hreads]; exact Bool.noConfusion),
      if_neg (by simpa using hnames), if_pos htakes]
  have hclear' := clear_written hclear true
  have hnames' := names_written hclear true
  have hother : ¬ Names false (some (written true (files.boot.getD []))) :=
    fun h => h.not_armed hnames'.armed
  rw [hboot, bootConfig_eq hclear']
  have hreads' : run.revert.reads (some (written true (files.boot.getD []))) =
      run.revert.reads (some []) := rfl
  rw [hreads']
  unfold BootRun.replaces
  by_cases hrevert : run.revert.reads (some []) = false
  · rw [if_pos hrevert, hrevert]
    exact ⟨fun _ => rfl, fun _ => hnames'.armed⟩
  rw [if_neg hrevert, if_neg (by simpa using hother)]
  rw [Bool.not_eq_false] at hrevert
  rw [hrevert, Bool.true_and]
  by_cases hrtakes : run.revert.replace.takes = true
  · rw [if_pos hrtakes, hrtakes]
    exact iff_of_false (names_written hclear' false).not_armed Bool.noConfusion
  rw [if_neg hrtakes]
  rw [Bool.not_eq_true] at hrtakes
  exact iff_of_true hnames'.armed hrtakes

/-- What the selection is after it has been taken back, or not. -/
theorem selected_reverted (hprev : previous = [] ∨ previous = CALIBRATED)
    (hsel : selected files.selection ≠ some REGULATORY) :
    selected (if previous ≠ [] then
        (persistWrite run.rewrite (persistWrite run.write files.selection REGULATORY).1 previous).1
      else if run.unlink = true then none
      else (persistWrite run.write files.selection REGULATORY).1) = some REGULATORY ↔
      run.write.takes = true ∧ (if previous = [] then run.unlink else run.rewrite.takes) = false := by
  have hfirst := persistWrite_modeText run.write files.selection true
  have hreg := selected_modeText true
  change persistWrite run.write files.selection REGULATORY = _ at hfirst
  rw [hfirst]
  dsimp only
  rcases hprev with rfl | rfl
  · rw [if_neg (fun h => h rfl), if_pos rfl]
    by_cases hunlink : run.unlink = true
    · rw [if_pos hunlink, hunlink]
      simp [selected, persistRead]
    rw [if_neg hunlink]
    by_cases htakes : run.write.takes = true
    · rw [if_pos htakes]
      simp_all [modeText]
    · simp_all
  · have hcal := selected_modeText false
    have hsecond := persistWrite_modeText run.rewrite
      (if run.write.takes then some (modeText true ++ ['\n']) else files.selection) false
    change persistWrite run.rewrite _ CALIBRATED = _ at hsecond
    have hne : CALIBRATED ≠ [] := by decide
    rw [if_pos hne, if_neg hne, hsecond]
    dsimp only
    by_cases hrtakes : run.rewrite.takes = true
    · rw [if_pos hrtakes, hcal, hrtakes]
      simp [modeText, CALIBRATED, REGULATORY]
    rw [if_neg hrtakes]
    by_cases htakes : run.write.takes = true
    · rw [if_pos htakes]
      simp_all [modeText]
    · simp_all

/-- The course in which the selection is not written. -/
theorem persistSelection_undo (hok : (bootConfig run.boot files.boot true true).2 = true)
    (hne : previous ≠ REGULATORY) (hwrite : (run.write.takes && run.write.synced) = false) :
    persistSelection run files true previous =
      (⟨(bootConfig run.revert (bootConfig run.boot files.boot true true).1 false true).1,
        if previous ≠ [] then
          (persistWrite run.rewrite (persistWrite run.write files.selection REGULATORY).1
            previous).1
        else if run.unlink = true then none
        else (persistWrite run.write files.selection REGULATORY).1⟩, false) := by
  have hfirst : (persistWrite run.write files.selection REGULATORY).2 = false := by
    have hwritten := persistWrite_modeText run.write files.selection true
    change persistWrite run.write files.selection REGULATORY = _ at hwritten
    rw [hwritten]
    exact hwrite
  unfold persistSelection
  dsimp only
  rw [hok, Bool.not_true, if_neg Bool.false_ne_true]
  change (if previous = REGULATORY then _ else
    if (persistWrite run.write files.selection REGULATORY).2 = true then _ else _) = _
  rw [if_neg hne, hfirst, if_neg Bool.false_ne_true, decide_eq_false hne]
  rfl

/-- Both courses are failures. -/
theorem persistSelection_of_course (hclear : Clear (fileLines files.boot))
    (h : Unsynced run files ∨ Unreverted run files previous) :
    (persistSelection run files true previous).2 = false := by
  have hdone := bootDone_iff run hclear
  rcases h with ⟨harmed, -, hsynced⟩ | ⟨hne, hboot, hwrite, -⟩
  · have hboot : ¬ BootDone run files := by
      rintro ⟨-, hnames | ⟨-, hsync⟩⟩
      · exact harmed hnames.armed
      · rw [hsynced] at hsync
        cases hsync
    rw [hdone, Bool.not_eq_true] at hboot
    unfold persistSelection
    dsimp only
    rw [hboot, Bool.not_false, if_pos rfl]
  · rw [persistSelection_undo (hdone.mp hboot) hne hwrite]

/-- **A failure leaves a file newly at the regulatory mode in two courses only.** -/
theorem persistSelection_failed (hclear : Clear (fileLines files.boot))
    (hprev : previous = [] ∨ previous = CALIBRATED ∨ previous = REGULATORY)
    (h : (persistSelection run files true previous).2 = false) :
    NewlyRegulatory files (persistSelection run files true previous).1 ↔
      Unsynced run files ∨ Unreverted run files previous := by
  have hdone := bootDone_iff run hclear
  by_cases hboot : BootDone run files
  · have hok := hdone.mp hboot
    have hunsynced : ¬ Unsynced run files := by
      rintro ⟨harmed, -, hsynced⟩
      obtain ⟨-, hnames | ⟨-, hsync⟩⟩ := hboot
      · exact harmed hnames.armed
      · rw [hsynced] at hsync
        cases hsync
    by_cases heq : previous = REGULATORY
    · unfold persistSelection at h
      dsimp only at h
      rw [hok, Bool.not_true, if_neg Bool.false_ne_true,
        if_pos (show previous = modeText true from heq)] at h
      cases h
    · have hprev' : previous = [] ∨ previous = CALIBRATED :=
        hprev.imp_right fun h => h.resolve_right heq
      have hwrite : (run.write.takes && run.write.synced) = false := by
        by_contra hw
        rw [Bool.not_eq_false] at hw
        unfold persistSelection at h
        dsimp only at h
        rw [hok, Bool.not_true, if_neg Bool.false_ne_true,
          if_neg (show ¬ previous = modeText true from heq), persistWrite_modeText, if_pos hw] at h
        cases h
      rw [persistSelection_undo hok heq hwrite, or_iff_right hunsynced]
      unfold NewlyRegulatory Unreverted
      dsimp only
      constructor
      · rintro (⟨harmed, hnew⟩ | ⟨hreg, hnew⟩)
        · exact ⟨heq, hboot, hwrite, .inl ⟨hnew, (armed_reverted hclear hboot hnew).mp harmed⟩⟩
        · exact ⟨heq, hboot, hwrite, .inr ⟨hnew, (selected_reverted hprev' hnew).mp hreg⟩⟩
      · rintro ⟨-, -, -, ⟨hnew, hrevert⟩ | ⟨hnew, hkept⟩⟩
        · exact .inl ⟨(armed_reverted hclear hboot hnew).mpr hrevert, hnew⟩
        · exact .inr ⟨(selected_reverted hprev' hnew).mpr hkept, hnew⟩
  · have hfail : (bootConfig run.boot files.boot true true).2 = false := by
      rw [← Bool.not_eq_true, ← hdone]
      exact hboot
    have hun : ¬ Unreverted run files previous := fun h => hboot h.2.1
    rw [or_iff_left hun, ← newly_of_boot_failed hclear hboot]
    unfold persistSelection
    dsimp only
    rw [hfail, Bool.not_false, if_pos rfl]

end DreamingOS.TxPower
