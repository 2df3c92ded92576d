import DreamingOS.DnsPolicy.Resolver

namespace DreamingOS.DnsPolicy

open List

/-!
# DNS policy — files that are read back, and the best row

* `parseFile_fileText` — a written file is read back, or refused for a name that is too long;
* `dwrtDnsDecide_none`, `dwrtDnsDecide_some` — the decision is the action of a row of the highest rank.
-/

/-! ### Lines and files -/

/-- The text in front of a line end is read as a line. -/
theorem fgets_line {n : ℕ} {body rest : List Char} (hbody : '\n' ∉ body) (hn : body.length + 1 < n) :
    fgets n (body ++ '\n' :: rest) = some (body ++ ['\n'], rest) := by
  have hne : body ++ '\n' :: rest ≠ [] := by simp
  have htake : ((body ++ '\n' :: rest).take (n - 1)).takeWhile (fun c => decide (c ≠ '\n')) =
      body := by
    obtain ⟨k, hk⟩ : ∃ k, n - 1 - body.length = k + 1 := ⟨n - 2 - body.length, by omega⟩
    rw [take_append, take_of_length_le (by omega), hk, take_succ_cons,
      takeWhile_append_of_pos, takeWhile_cons_of_neg (by simp), append_nil]
    intro c hc
    have hcn : c ≠ '\n' := fun heq => hbody (heq ▸ hc)
    simp [hcn]
  unfold fgets
  rw [if_neg hne]
  dsimp only
  rw [htake, drop_left, if_pos ⟨by omega, rfl⟩]
  congr 2
  rw [← drop_drop, drop_left]
  rfl

theorem fgets_nil (n : ℕ) : fgets n [] = none := rfl

variable {l : Line}

/-- A line without its end. -/
def Line.body (l : Line) : List Char :=
  l.kind :: ' ' :: (l.id ++ ' ' :: (l.mac ++ ' ' :: (l.ip ++ ' ' :: (Nat.toDigits 10 l.expires ++
    ' ' :: l.action :: ' ' :: l.matching :: ' ' :: l.domain))))

theorem Line.text_eq (l : Line) : l.text = l.body ++ ['\n'] := by
  unfold Line.text Line.body
  simp

theorem not_mem_of_field {w : List Char} (h : Scan.Field w) : '\n' ∉ w := by
  intro hmem
  have hsolid := h.solid _ hmem
  revert hsolid
  decide

theorem LineOk.body_newline (h : LineOk l) : '\n' ∉ l.body := by
  have hkind : l.kind ≠ '\n' := by
    intro heq
    have hsolid := h.kind_solid
    rw [heq] at hsolid
    cases hsolid
  have haction : l.action ≠ '\n' := by
    intro heq
    have hsolid := h.action_solid
    rw [heq] at hsolid
    cases hsolid
  have hmatching : l.matching ≠ '\n' := by
    intro heq
    have hsolid := h.matching_solid
    rw [heq] at hsolid
    cases hsolid
  unfold Line.body
  simp [hkind.symm, haction.symm, hmatching.symm, not_mem_of_field h.id, not_mem_of_field h.mac,
    not_mem_of_field h.ip, not_mem_of_field h.domain,
    not_mem_of_field (Scan.field_decimal l.expires)]

theorem LineOk.body_length (h : LineOk l) : l.body.length + 1 ≤ 459 := by
  have hdigits : (Nat.toDigits 10 l.expires).length ≤ 19 := by
    rw [Nat.length_toDigits_le_iff (by decide) (by decide)]
    exact Nat.lt_trans h.expires (by decide)
  have h1 := h.idLength
  have h2 := h.macLength
  have h3 := h.ipLength
  have h4 := h.domainLength
  unfold Line.body
  simp only [length_cons, length_append]
  omega

variable {lines : List Line}

/-- The lines of a file are read back, if all names fit. -/
theorem parseRows_text {fuel count : ℕ} (hok : ∀ l ∈ lines, LineOk l)
    (hcount : count + lines.length ≤ DWP_MAX_ROWS) (hfuel : lines.length < fuel) :
    parseRows fuel count (lines.flatMap Line.text) =
      if ∀ l ∈ lines, l.id.length ≤ 95 then some lines else none := by
  induction lines generalizing fuel count with
  | nil =>
    obtain ⟨fuel, rfl⟩ : ∃ k, fuel = k + 1 := ⟨fuel - 1, by simp at hfuel; omega⟩
    simp [parseRows, fgets_nil]
  | cons l lines ih =>
    obtain ⟨fuel, rfl⟩ : ∃ k, fuel = k + 1 := ⟨fuel - 1, by simp at hfuel; omega⟩
    have hl := hok l mem_cons_self
    have ih := @ih fuel (count + 1)
      (fun x hx => hok x (mem_cons_of_mem _ hx))
      (by rw [length_cons] at hcount; omega) (by rw [length_cons] at hfuel; omega)
    have hline : fgets LINE_SIZE ((l :: lines).flatMap Line.text) =
        some (l.text, lines.flatMap Line.text) := by
      rw [flatMap_cons, Line.text_eq, append_assoc, singleton_append]
      exact fgets_line hl.body_newline
        (Nat.lt_of_le_of_lt hl.body_length (by decide : 459 < LINE_SIZE))
    have hnewline : '\n' ∈ l.text := by rw [Line.text_eq]; simp
    have hroom : count ≠ DWP_MAX_ROWS := by rw [length_cons] at hcount; omega
    rw [parseRows, hline]
    dsimp only
    rw [if_neg (by simp [hroom, hnewline])]
    by_cases hid : l.id.length ≤ 95
    · rw [scanRow_text hl hid]
      dsimp only
      rw [ih]
      by_cases hall : ∀ x ∈ lines, x.id.length ≤ 95
      · have hcons : ∀ x ∈ l :: lines, x.id.length ≤ 95 := by simpa [hid] using hall
        rw [if_pos hall, if_pos hcons]
        rfl
      · have hcons : ¬ ∀ x ∈ l :: lines, x.id.length ≤ 95 := fun h =>
          hall fun x hx => h x (mem_cons_of_mem _ hx)
        rw [if_neg hall, if_neg hcons]
        rfl
    · have hlong : l.id.length = 96 := by have := hl.idLength; omega
      have hcons : ¬ ∀ x ∈ l :: lines, x.id.length ≤ 95 := fun h =>
        hid (h l mem_cons_self)
      rw [scanRow_long hl hlong, if_neg hcons]

theorem field_magic : Scan.Field magic := ⟨by decide, Scan.solid_of_all (by decide)⟩

variable {revision : ℕ}

theorem length_header (hrev : revision < 2 ^ 63) :
    (magic ++ ' ' :: Nat.toDigits 10 revision).length + 1 ≤ 26 := by
  have hdigits : (Nat.toDigits 10 revision).length ≤ 19 := by
    rw [Nat.length_toDigits_le_iff (by decide) (by decide)]
    exact Nat.lt_trans hrev (by decide)
  have hmagic : magic.length = 5 := rfl
  simp only [length_append, length_cons, hmagic]
  omega

/-- **A written file is read back**, if all names fit; else it is refused. -/
theorem parseFile_fileText (hrev : revision < 2 ^ 63)
    (hok : ∀ l ∈ lines, LineOk l) (hcount : lines.length ≤ DWP_MAX_ROWS) :
    parseFile (fileText revision lines) =
      if ∀ l ∈ lines, l.id.length ≤ 95 then some (revision, lines) else none := by
  have hdigits := Scan.field_decimal revision
  have hheader : fgets LINE_SIZE (fileText revision lines) =
      some (headerText revision, lines.flatMap Line.text) := by
    have hnew : '\n' ∉ magic ++ ' ' :: Nat.toDigits 10 revision := by
      simp [not_mem_of_field field_magic, not_mem_of_field hdigits]
    have hlen := Nat.lt_of_le_of_lt (length_header hrev) (by decide : 26 < LINE_SIZE)
    have hline := @fgets_line LINE_SIZE _ (lines.flatMap Line.text) hnew hlen
    unfold fileText headerText
    simpa using hline
  have hfuel : lines.length < (lines.flatMap Line.text).length + 1 := by
    rw [List.length_flatMap]
    have hle : lines.length ≤ (lines.map fun l => l.text.length).sum := by
      clear hok hcount hheader
      induction lines with
      | nil => exact Nat.le_refl 0
      | cons l lines ih =>
        rw [map_cons, sum_cons, length_cons, Line.text_eq, length_append, length_singleton]
        omega
    omega
  unfold parseFile
  simp only [Option.bind_eq_bind, hheader, Option.bind_some, headerText,
    Scan.word_append field_magic (by decide : magic.length ≤ 15) (stops_space _),
    Scan.nat_space isSpace_space, Scan.nat_decimal hrev (stops_newline _), ne_eq, not_true_eq_false,
    if_false, parseRows_text hok (by omega : 0 + lines.length ≤ DWP_MAX_ROWS) hfuel]
  split <;> rfl

/-- A written file is not too large. -/
theorem length_fileText (hrev : revision < 2 ^ 63)
    (hok : ∀ l ∈ lines, LineOk l) (hcount : lines.length ≤ DWP_MAX_ROWS) :
    (fileText revision lines).length ≤ 3 * 1024 * 1024 := by
  have hlines : (lines.flatMap Line.text).length ≤ lines.length * 459 := by
    clear hcount
    induction lines with
    | nil => exact Nat.le_refl 0
    | cons l lines ih =>
      have hl := (hok l mem_cons_self).body_length
      have ih := ih fun x hx => hok x (mem_cons_of_mem _ hx)
      rw [flatMap_cons, length_append, Line.text_eq, length_append, length_singleton, length_cons]
      omega
  have hheader : (headerText revision).length ≤ 26 := by
    have h := length_header hrev
    unfold headerText
    simp only [length_append, length_cons, length_nil] at h ⊢
    omega
  have hmax : lines.length * 459 ≤ 4096 * 459 := Nat.mul_le_mul_right _ hcount
  unfold fileText
  rw [length_append]
  omega

/-- What the resolver holds after a written file that it has not read before. -/
theorem dwpReload_fileText {r : Resolver} {f : PolicyFile}
    (hf : f.text = fileText revision lines) (hcached : r.cached f = false)
    (hrev : revision < 2 ^ 63) (hok : ∀ l ∈ lines, LineOk l)
    (hcount : lines.length ≤ DWP_MAX_ROWS) :
    dwpReload r (some f) = if ∀ l ∈ lines, l.id.length ≤ 95 then
        ⟨true, lines, revision, f.inode, f.text.length, f.mtime⟩
      else r.invalid := by
  have hsize := length_fileText hrev hok hcount
  rw [← hf] at hsize
  unfold dwpReload
  dsimp only
  rw [if_neg (by omega), if_neg (by simp [hcached]), hf, parseFile_fileText hrev hok hcount]
  by_cases hall : ∀ l ∈ lines, l.id.length ≤ 95
  · rw [if_pos hall, if_pos hall]
  · rw [if_neg hall, if_neg hall]

/-! ### The best row -/

variable {client : Client} {name : List Char} {now : ℕ}

/-- The rows that the decision looks at. -/
def Counts (client : Client) (name : List Char) (now : ℕ) (r : Line) : Prop :=
  r.kind = 'R' ∧ dwpTarget r client now = true ∧ dwpMatch r name = true

theorem decideStep_of_counts {best : Option RuleAction × ℤ} {r : Line}
    (h : Counts client name now r) :
    decideStep client name now best r =
      if candidate r > best.2 then (some (rowAction r), candidate r) else best := by
  unfold decideStep
  rw [if_neg]
  simp [h.1, h.2.1, h.2.2]

theorem decideStep_of_not_counts {best : Option RuleAction × ℤ} {r : Line}
    (h : ¬ Counts client name now r) : decideStep client name now best r = best := by
  unfold decideStep
  rw [if_pos]
  by_contra hno
  apply h
  unfold Counts
  simpa [not_or] using hno

theorem candidate_nonneg (r : Line) : 0 ≤ candidate r := by
  unfold candidate
  split <;> split <;> split <;> omega

/-- What the loop has found so far: an action of a row with the rank noted, or the best one before;
    and no row that counts has a higher rank. -/
theorem foldl_decideStep (rows : List Line) (best : Option RuleAction × ℤ) :
    let out := rows.foldl (decideStep client name now) best
    (out = best ∨ ∃ r ∈ rows, Counts client name now r ∧ out = (some (rowAction r), candidate r)) ∧
      best.2 ≤ out.2 ∧ ∀ r ∈ rows, Counts client name now r → candidate r ≤ out.2 := by
  induction rows generalizing best with
  | nil => exact ⟨.inl rfl, Int.le_refl _, nofun⟩
  | cons r rows ih =>
    obtain ⟨hout, hbest, hmax⟩ := ih (decideStep client name now best r)
    rw [foldl_cons]
    by_cases hr : Counts client name now r
    · have hstep := @decideStep_of_counts client name now best r hr
      by_cases hgt : candidate r > best.2
      · rw [if_pos hgt] at hstep
        rw [hstep] at hout hbest hmax ⊢
        refine ⟨.inr ?_, by dsimp only at hbest; omega, ?_⟩
        · obtain hout | ⟨x, hx, hcounts, hout⟩ := hout
          · exact ⟨r, mem_cons_self, hr, hout⟩
          · exact ⟨x, mem_cons_of_mem _ hx, hcounts, hout⟩
        · intro x hx hcounts
          rw [mem_cons] at hx
          obtain rfl | hx := hx
          · exact hbest
          · exact hmax x hx hcounts
      · rw [if_neg hgt] at hstep
        rw [hstep] at hout hbest hmax ⊢
        refine ⟨?_, hbest, ?_⟩
        · obtain hout | ⟨x, hx, hcounts, hout⟩ := hout
          · exact .inl hout
          · exact .inr ⟨x, mem_cons_of_mem _ hx, hcounts, hout⟩
        · intro x hx hcounts
          rw [mem_cons] at hx
          obtain rfl | hx := hx
          · omega
          · exact hmax x hx hcounts
    · rw [decideStep_of_not_counts hr] at hout hbest hmax ⊢
      refine ⟨?_, hbest, ?_⟩
      · obtain hout | ⟨x, hx, hcounts, hout⟩ := hout
        · exact .inl hout
        · exact .inr ⟨x, mem_cons_of_mem _ hx, hcounts, hout⟩
      · intro x hx hcounts
        rw [mem_cons] at hx
        obtain rfl | hx := hx
        · exact absurd hcounts hr
        · exact hmax x hx hcounts

/-- Without a decision no row counts. -/
theorem dwrtDnsDecide_none {rows : List Line} (h : dwrtDnsDecide rows client name now = none) :
    ∀ r ∈ rows, ¬ Counts client name now r := by
  obtain ⟨hout, -, hmax⟩ := @foldl_decideStep client name now rows (none, -1)
  unfold dwrtDnsDecide at h
  intro r hr hcounts
  have hle := hmax r hr hcounts
  obtain hout | ⟨x, -, -, hout⟩ := hout
  · rw [hout] at hle
    have hpos := candidate_nonneg r
    dsimp only at hle
    omega
  · rw [hout] at h
    cases h

/-- A decision is the action of a row that counts, of the highest rank of those. -/
theorem dwrtDnsDecide_some {rows : List Line} {a : RuleAction}
    (h : dwrtDnsDecide rows client name now = some a) :
    ∃ r ∈ rows, Counts client name now r ∧ rowAction r = a ∧
      ∀ x ∈ rows, Counts client name now x → candidate x ≤ candidate r := by
  obtain ⟨hout, -, hmax⟩ := @foldl_decideStep client name now rows (none, -1)
  unfold dwrtDnsDecide at h
  obtain hout | ⟨r, hr, hcounts, hout⟩ := hout
  · rw [hout] at h
    cases h
  · rw [hout] at h hmax
    exact ⟨r, hr, hcounts, Option.some.inj h, hmax⟩

end DreamingOS.DnsPolicy
