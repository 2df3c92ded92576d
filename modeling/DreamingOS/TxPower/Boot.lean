import DreamingOS.TxPower.Files

namespace DreamingOS.TxPower

open List Option

/-!
# Transmit power — what a written boot file says

`bootConfig` rewrites a file whose other lines do not set the option.  Afterwards the file has one
line of apd, the wanted one, and its other lines still do not set the option; so it can be rewritten
again.

* `bootScan_eq` — what the loop finds and copies;
* `bootConfig_eq` — the file after a call, by what the calls return.
-/

/-- The lines of a file. -/
def fileLines (file : File) : List (List Char) := getlines (file.getD [])

/-- No line of another owner sets the option. -/
def Clear (ls : List (List Char)) : Prop := ∀ line ∈ ls, isOwn line = false → conflicts line = false

/-- The file arms the regulatory mode for the next boot. -/
def Armed (file : File) : Prop := ownLine true ∈ fileLines file

/-- The only line of apd in the file is the one of the mode. -/
def Names (regulatory : Bool) (file : File) : Prop :=
  (fileLines file).filter isOwn = [ownLine regulatory]

instance (file : File) : Decidable (Armed file) := inferInstanceAs (Decidable (_ ∈ _))
instance (regulatory : Bool) (file : File) : Decidable (Names regulatory file) :=
  inferInstanceAs (Decidable (_ = _))

@[simp] theorem isOwn_ownLine (regulatory : Bool) : isOwn (ownLine regulatory) = true := by
  cases regulatory <;> rfl

variable {file : File}

theorem Names.armed (h : Names true file) : Armed file := by
  have hmem : ownLine true ∈ (fileLines file).filter isOwn := by
    rw [h]
    exact mem_singleton_self _
  exact (mem_filter.mp hmem).1

theorem Names.not_armed (h : Names false file) : ¬ Armed file := by
  intro harmed
  have hmem : ownLine true ∈ (fileLines file).filter isOwn :=
    mem_filter.mpr ⟨harmed, isOwn_ownLine true⟩
  rw [h, mem_singleton] at hmem
  exact absurd hmem (by decide)

/-! ### The loop over the lines -/

/-- The lines that are copied. -/
def others (text : List Char) : List (List Char × Bool) :=
  (Text.lines '\n' text).filter fun line => !isOwn (Text.ended '\n' line)

/-- The last character of the last of some lines. -/
def lastOf (last : Char) (ls : List (List Char)) : Char :=
  ls.foldl (fun last line => line.getLast?.getD last) last

variable {ls : List (List Char)}

theorem bootScan_eq (h : Clear ls) (regulatory : Bool) (b : BootScan) :
    bootScan (ownLine regulatory) b ls = some
      ⟨b.found + ls.countP isOwn, b.matching + ls.count (ownLine regulatory),
        lastOf b.last (ls.filter fun line => !isOwn line),
        b.output ++ (ls.filter fun line => !isOwn line).flatten⟩ := by
  induction ls generalizing b with
  | nil => simp [bootScan, lastOf]
  | cons line ls ih =>
    have hls : Clear ls := fun l hl => h l (mem_cons_of_mem _ hl)
    unfold bootScan
    by_cases hown : isOwn line = true
    · rw [if_pos hown, ih hls]
      by_cases hline : line = ownLine regulatory
      · simp [hline]
        omega
      · simp [hown, hline]
        omega
    · have hown' : isOwn line = false := by simpa using hown
      have hline : line ≠ ownLine regulatory := by
        rintro rfl
        exact hown (isOwn_ownLine regulatory)
      rw [if_neg hown, h line mem_cons_self hown', if_neg Bool.false_ne_true, ih hls]
      simp [hown', hline, lastOf]

/-- A line that sets the option stops the loop. -/
theorem bootScan_eq_none (h : ¬ Clear ls) (wanted : List Char)
    (b : BootScan) : bootScan wanted b ls = none := by
  induction ls generalizing b with
  | nil => exact absurd (fun _ hl => absurd hl not_mem_nil) h
  | cons line ls ih =>
    unfold bootScan
    split
    · next hown =>
      apply ih
      intro hls
      apply h
      intro l hl hl'
      rcases mem_cons.mp hl with rfl | hl
      · rw [hown] at hl'
        cases hl'
      · exact hls l hl hl'
    · split
      · rfl
      rename_i hown hfree
      apply ih
      intro hls
      apply h
      intro l hl hl'
      rcases mem_cons.mp hl with rfl | hl
      · simpa using hfree
      · exact hls l hl hl'

/-! ### The text that is written -/

/-- A line end at the end of a line does not make it set the option. -/
theorem conflicts_concat (line : List Char) : conflicts (line ++ ['\n']) = conflicts line := by
  have hoption := Text.search_concat_of_notMem (show '\n' ∉ OPTION by decide)
    (by decide) line
  have hcode := Text.search_concat_of_notMem (show '\n' ∉ ['#'] by decide)
    (by decide) line
  unfold conflicts
  rw [Scan.word_concat_space (by decide)]
  cases Scan.word 31 line with
  | none => rfl
  | some p =>
    dsimp only [map_some]
    rw [Scan.word_concat_space (by decide)]
    cases Scan.word 63 p.2 with
    | none => rfl
    | some q =>
      dsimp only [map_some]
      rw [hoption, hcode]
      cases Text.search OPTION line <;> cases Text.search ['#'] line <;> rfl

/-- Without its line end, a line of apd counts as another's. -/
theorem conflicts_body {body : List Char} (h : isOwn (body ++ ['\n']) = true) :
    conflicts body = true := by
  have hbody : ∃ regulatory, body ++ ['\n'] = ownLine regulatory := by
    unfold isOwn at h
    rw [Bool.or_eq_true, decide_eq_true_eq, decide_eq_true_eq] at h
    rcases h with h | h
    · exact ⟨false, h⟩
    · exact ⟨true, h⟩
  obtain ⟨regulatory, heq⟩ := hbody
  rw [← conflicts_concat, heq]
  cases regulatory <;> decide +kernel

variable {text : List Char}

theorem filter_getlines :
    (getlines text).filter (fun line => !isOwn line) = (others text).map (Text.ended '\n') := by
  unfold getlines others
  rw [List.filter_map]
  rfl

variable {line : List Char × Bool}

theorem notMem_of_mem_others (h : line ∈ others text) : '\n' ∉ line.1 :=
  Text.notMem_of_mem_lines (mem_filter.mp h).1

theorem lastOf_map_ended {ls : List (List Char × Bool)}
    (h : ∀ line ∈ ls, '\n' ∉ line.1 ∧ (line.2 = false → line.1 ≠ [])) :
    lastOf '\n' (ls.map (Text.ended '\n')) = '\n' ↔ ls.getLast?.all Prod.snd = true := by
  rcases eq_nil_or_concat ls with rfl | ⟨front, ⟨body, mark⟩, rfl⟩
  · exact ⟨fun _ => rfl, fun _ => rfl⟩
  · obtain ⟨hbody, hne⟩ := h (body, mark) (by simp)
    unfold lastOf Text.ended
    rw [concat_eq_append, map_append, foldl_append, getLast?_concat]
    cases mark with
    | true => simp
    | false =>
      have hlast := getLast?_eq_some_getLast (hne rfl)
      have hmem : body.getLast (hne rfl) ≠ '\n' := fun heq => hbody (heq ▸ getLast_mem _)
      simp [hlast, hmem]

/-- The text that `bootConfig` writes. -/
def written (regulatory : Bool) (text : List Char) : List Char :=
  (others text).flatMap (fun line => line.1 ++ ['\n']) ++ ownLine regulatory

theorem text_eq_written (regulatory : Bool) (found matching : ℕ) :
    BootScan.text ⟨found, matching, lastOf '\n' ((others text).map (Text.ended '\n')),
      ((others text).map (Text.ended '\n')).flatten⟩ (ownLine regulatory) =
      written regulatory text := by
  have hpair : (others text).Pairwise fun line _ => line.2 = true :=
    (Text.pairwise_lines '\n' text).filter _
  have hlast := lastOf_map_ended fun line (hline : line ∈ others text) =>
    ⟨notMem_of_mem_others hline, Text.ne_nil_of_mem_lines (mem_filter.mp hline).1⟩
  unfold BootScan.text written
  dsimp only
  rw [if_congr hlast rfl rfl, ← flatMap_def, Text.flatMap_ended hpair]

theorem getlines_written (regulatory : Bool) : getlines (written regulatory text) =
      (others text).map (fun line => line.1 ++ ['\n']) ++ [ownLine regulatory] := by
  unfold getlines written
  rw [Text.lines_flatMap fun line hline => notMem_of_mem_others hline, map_append, List.map_map]
  congr 1
  cases regulatory <;> decide +kernel

/-- With its line end, a line of another owner stays one. -/
theorem not_isOwn_of_mem_others (h : Clear (getlines text)) (hline : line ∈ others text) :
    isOwn (line.1 ++ ['\n']) = false ∧ conflicts (line.1 ++ ['\n']) = false := by
  obtain ⟨hmem, hnot⟩ := mem_filter.mp hline
  have hnot' : isOwn (Text.ended '\n' line) = false := by simpa using hnot
  have hfree := h _ (List.mem_map_of_mem hmem) hnot'
  obtain ⟨body, mark⟩ := line
  unfold Text.ended at hnot' hfree
  cases mark with
  | true => exact ⟨hnot', hfree⟩
  | false =>
    rw [if_neg Bool.false_ne_true, append_nil] at hfree
    refine ⟨?_, by rw [conflicts_concat]; exact hfree⟩
    by_contra hown
    rw [Bool.not_eq_false] at hown
    rw [conflicts_body hown] at hfree
    cases hfree

theorem clear_written (h : Clear (getlines text)) (regulatory : Bool) :
    Clear (fileLines (some (written regulatory text))) := by
  intro line hline hown
  rw [fileLines, getD_some, getlines_written] at hline
  rcases mem_append.mp hline with hline | hline
  · obtain ⟨l, hl, rfl⟩ := List.mem_map.mp hline
    exact (not_isOwn_of_mem_others h hl).2
  · rw [mem_singleton.mp hline, isOwn_ownLine] at hown
    cases hown

theorem names_written (h : Clear (getlines text)) (regulatory : Bool) :
    Names regulatory (some (written regulatory text)) := by
  have hnone : ((others text).map fun line => line.1 ++ ['\n']).filter isOwn = [] := by
    apply filter_eq_nil_iff.mpr
    intro line hline
    obtain ⟨l, hl, rfl⟩ := List.mem_map.mp hline
    rw [(not_isOwn_of_mem_others h hl).1]
    exact Bool.false_ne_true
  unfold Names fileLines
  rw [getD_some, getlines_written, filter_append, hnone, nil_append,
    filter_cons_of_pos (isOwn_ownLine _), filter_nil]

/-- One line of apd is found, and it is the wanted one. -/
theorem names_iff (regulatory : Bool) (file : File) : Names regulatory file ↔
    (fileLines file).countP isOwn = 1 ∧ (fileLines file).count (ownLine regulatory) = 1 := by
  unfold Names
  rw [countP_eq_length_filter, ← count_filter (p := isOwn) (isOwn_ownLine regulatory)]
  constructor
  · intro h
    rw [h]
    exact ⟨rfl, by simp⟩
  · rintro ⟨hlength, hcount⟩
    obtain ⟨line, hline⟩ := length_eq_one_iff.mp hlength
    rw [hline] at hcount ⊢
    rw [count_singleton] at hcount
    split at hcount
    · next heq => rw [eq_of_beq heq]
    · cases hcount

/-! ### A call -/

/-- The file can be read, and its lines be copied. -/
def BootRun.reads (run : BootRun) (file : File) : Bool :=
  run.fopen && run.memstream && (file.isNone || run.getline) && run.fputs

/-- The file is replaced, if it is to be. -/
def BootRun.replaces (run : BootRun) (file : File) : Bool := run.reads file && run.replace.takes

theorem bootConfig_of_not_clear (h : ¬ Clear (fileLines file)) (run : BootRun)
    (regulatory apply : Bool) : bootConfig run file regulatory apply = (file, false) := by
  unfold bootConfig
  unfold fileLines at h
  dsimp only
  rw [bootScan_eq_none h]
  split
  · rfl
  · split <;> rfl

/-- A file that says nothing else is left alone where it names the mode, and replaced where it
    does not. -/
theorem bootConfig_eq (h : Clear (fileLines file)) (run : BootRun) (regulatory apply : Bool) :
    bootConfig run file regulatory apply = if run.reads file = false then (file, false)
      else if apply = false ∨ Names regulatory file then (file, true)
      else (if run.replace.takes then some (written regulatory (file.getD [])) else file,
        run.replace.takes && run.replace.synced) := by
  have hnames := names_iff regulatory file
  unfold bootConfig BootRun.reads
  dsimp only
  unfold fileLines at h
  rw [bootScan_eq h]
  dsimp only
  rw [Nat.zero_add, Nat.zero_add, nil_append, filter_getlines, text_eq_written, atomicText_eq]
  unfold fileLines at hnames
  by_cases hrun : run.fopen = true ∧ run.memstream = true ∧
      (file.isNone || run.getline) = true ∧ run.fputs = true
  · obtain ⟨h1, h2, h3, h4⟩ := hrun
    have h3' : (file.isSome && !run.getline) = false := by
      cases file <;> simp_all
    simp only [h1, h2, h3, h4, h3', hnames]
    by_cases happly : apply = false <;> simp [happly]
  · cases h1 : run.fopen <;> cases h2 : run.memstream <;> cases h4 : run.fputs <;>
      cases file <;> simp_all

end DreamingOS.TxPower
