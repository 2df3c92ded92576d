import DreamingOS.DnsPolicy.Store

namespace DreamingOS.DnsPolicy

open List Option

/-!
# DNS policy — the resolver

The reader of the policy file in `dwrt_dns_policy.c`, and the decision it makes for a query.

* `scanRow`, `parseFile`, `dwpReload` — what is read from the file;
* `dwpTarget`, `dwpMatch`, `candidate`, `dwrtDnsDecide` — the decision on the rows read.
-/

/-! ### Reading the file -/

/-- `fgets` with a buffer of `n` characters. -/
def fgets (n : ℕ) (s : List Char) : Option (List Char × List Char) :=
  if s = [] then none
  else
    let a := (s.take (n - 1)).takeWhile (· ≠ '\n')
    if a.length < n - 1 ∧ (s.drop a.length).head? = some '\n' then
      some (a ++ ['\n'], s.drop (a.length + 1))
    else some (a, s.drop a.length)

/-- The size of the buffer for a line. -/
def LINE_SIZE : ℕ := 640

/-- The checks on a row that has been scanned. -/
def rowOk (r : Line) (expiry : ℤ) : Bool :=
  (r.kind = 'R' || r.kind = 'O') && 0 ≤ expiry &&
    (r.action = 'B' || r.action = 'A' || r.action = '-') &&
    (r.matching = 'E' || r.matching = 'S' || r.matching = '-') &&
    !(r.kind = 'R' && (r.action = '-' || r.matching = '-'))

/-- One line: eight conversions succeed, and the ninth does not. -/
def scanRow (s : List Char) : Option Line := do
  let (kind, s) ← Scan.char s
  let (id, s) ← Scan.word 95 s
  let (mac, s) ← Scan.word 17 s
  let (ip, s) ← Scan.word 63 s
  let (expiry, s) ← Scan.int s
  let (action, s) ← Scan.char s
  let (matching, s) ← Scan.char s
  let (domain, s) ← Scan.word 253 s
  let r : Line := ⟨kind, id, mac, ip, expiry.toNat, action, matching, domain⟩
  if (Scan.char s).isSome then none else if rowOk r expiry then some r else none

/-- The loop over the lines; `fuel` is more than there are characters left. -/
def parseRows : ℕ → ℕ → List Char → Option (List Line)
  | 0, _, _ => none
  | fuel + 1, count, text =>
    match fgets LINE_SIZE text with
    | none => some []
    | some (line, rest) =>
      if count = DWP_MAX_ROWS ∨ '\n' ∉ line then none
      else
        match scanRow line with
        | none => none
        | some r => (parseRows fuel (count + 1) rest).map (r :: ·)

/-- The revision and the rows of a file. -/
def parseFile (text : List Char) : Option (ℕ × List Line) := do
  let (line, rest) ← fgets LINE_SIZE text
  let (word, s) ← Scan.word 15 line
  let (revision, _) ← Scan.nat s
  if word ≠ magic then none
  else (parseRows (rest.length + 1) 0 rest).map fun rows => (revision, rows)

/-- A file with what `stat` says of it. -/
structure PolicyFile where
  (inode mtime : ℕ)
  text : List Char

/-- What the resolver holds of the file it has read last. -/
structure Resolver where
  valid : Bool
  rows : List Line
  (revision inode size mtime : ℕ)

/-- The resolver without a snapshot. -/
def Resolver.invalid (r : Resolver) : Resolver := { r with valid := false, rows := [] }

/-- The file is the one that has been read. -/
def Resolver.cached (r : Resolver) (f : PolicyFile) : Bool :=
  r.valid && f.inode = r.inode && f.text.length = r.size && f.mtime = r.mtime

/-- `dwp_reload`. -/
def dwpReload (r : Resolver) : Option PolicyFile → Resolver
  | none => r.invalid
  | some f =>
    if f.text.length > 3 * 1024 * 1024 then r.invalid
    else if r.cached f then r
    else
      match parseFile f.text with
      | some (revision, rows) => ⟨true, rows, revision, f.inode, f.text.length, f.mtime⟩
      | none => r.invalid

/-! ### The decision -/

/-- What the resolver knows of the source of a query: its address, and its mac address if any. -/
structure Client where
  (ip mac : List Char)

/-- `dwp_target`. -/
def dwpTarget (r : Line) (client : Client) (now : ℕ) : Bool :=
  if r.expires ≠ 0 ∧ r.expires ≤ now then false
  else if r.ip ≠ ['*'] ∧ r.ip ≠ client.ip then false
  else r.mac = ['*'] || (client.mac ≠ [] && strcaseeq r.mac client.mac)

/-- `dwp_match`. -/
def dwpMatch (r : Line) (name : List Char) : Bool :=
  strcaseeq name r.domain ||
    (r.matching = 'S' && r.domain.length < name.length &&
      name[name.length - r.domain.length - 1]? = some '.' &&
      strcaseeq (name.drop (name.length - r.domain.length)) r.domain)

/-- The rank of a row: device over global, temporary over permanent, then the length of the name,
    then exact over suffix. -/
def candidate (r : Line) : ℤ :=
  (if r.mac ≠ ['*'] then 10000 else 0) + (if r.expires ≠ 0 then 1000 else 0) +
    r.domain.length * 2 + (if r.matching = 'E' then 1 else 0)

/-- The action of a row. -/
def rowAction (r : Line) : RuleAction := if r.action = 'B' then .block else .allow

/-- One row in the loop of `dwrt_dns_decide`: the action and its rank so far. -/
def decideStep (client : Client) (name : List Char) (now : ℕ)
    (best : Option RuleAction × ℤ) (r : Line) : Option RuleAction × ℤ :=
  if r.kind ≠ 'R' ∨ !dwpTarget r client now ∨ !dwpMatch r name then best
  else if candidate r > best.2 then (some (rowAction r), candidate r)
  else best

/-- `dwrt_dns_decide` on the rows of the resolver. -/
def dwrtDnsDecide (rows : List Line) (client : Client) (name : List Char) (now : ℕ) :
    Option RuleAction :=
  (rows.foldl (decideStep client name now) (none, -1)).1

/-! ### Lines that are read back -/

/-- A line that `emit` may write: its fields are words that fit, but for the name. -/
structure LineOk (l : Line) : Prop where
  kind : l.kind = 'R' ∨ l.kind = 'O'
  id : Scan.Field l.id
  idLength : l.id.length ≤ 96
  mac : Scan.Field l.mac
  macLength : l.mac.length ≤ 17
  ip : Scan.Field l.ip
  ipLength : l.ip.length ≤ 63
  expires : l.expires < 2 ^ 63
  action : (l.action = 'B' ∨ l.action = 'A') ∨ (l.kind = 'O' ∧ l.action = '-')
  matching : l.matching = 'E' ∨ (l.kind = 'O' ∧ l.matching = '-')
  domain : Scan.Field l.domain
  domainLength : l.domain.length ≤ 253

theorem stops_space (s : List Char) : Scan.Stops (' ' :: s) := by
  intro c hc
  obtain rfl := some.inj hc
  rfl

theorem stops_newline (s : List Char) : Scan.Stops ('\n' :: s) := by
  intro c hc
  obtain rfl := some.inj hc
  rfl

theorem isSpace_space : Scan.isSpace ' ' = true := rfl

variable {l : Line}

theorem LineOk.kind_solid (h : LineOk l) : Scan.isSpace l.kind = false := by
  obtain hk | hk := h.kind <;> rw [hk] <;> rfl

theorem LineOk.action_solid (h : LineOk l) : Scan.isSpace l.action = false := by
  obtain (ha | ha) | ⟨-, ha⟩ := h.action <;> rw [ha] <;> rfl

theorem LineOk.matching_solid (h : LineOk l) : Scan.isSpace l.matching = false := by
  obtain hm | ⟨-, hm⟩ := h.matching <;> rw [hm] <;> rfl

theorem LineOk.rowOk (h : LineOk l) : rowOk l (l.expires : ℤ) = true := by
  unfold DnsPolicy.rowOk
  obtain hk | hk := h.kind
  · obtain (ha | ha) | ⟨ho, -⟩ := h.action
    · obtain hm | ⟨ho, -⟩ := h.matching
      · simp [hk, ha, hm]
      · rw [hk] at ho
        cases ho
    · obtain hm | ⟨ho, -⟩ := h.matching
      · simp [hk, ha, hm]
      · rw [hk] at ho
        cases ho
    · rw [hk] at ho
      cases ho
  · obtain (ha | ha) | ⟨-, ha⟩ := h.action <;> obtain hm | ⟨-, hm⟩ := h.matching <;>
      simp [hk, ha, hm]

/-- A line whose name fits is read back. -/
theorem scanRow_text (h : LineOk l) (hid : l.id.length ≤ 95) : scanRow l.text = some l := by
  have hnil : Scan.char ['\n'] = none := rfl
  unfold scanRow Line.text
  simp only [Scan.char_cons h.kind_solid, bind_eq_bind, bind_some,
    Scan.word_space isSpace_space, Scan.word_append h.id hid (stops_space _),
    Scan.word_append h.mac h.macLength (stops_space _),
    Scan.word_append h.ip h.ipLength (stops_space _), Scan.int_space isSpace_space,
    Scan.int_decimal h.expires (stops_space _), Scan.char_space isSpace_space,
    Scan.char_cons h.action_solid, Scan.char_cons h.matching_solid,
    Scan.word_append h.domain h.domainLength (stops_newline _), hnil, isSome_none,
    Bool.false_eq_true, if_false, Int.toNat_natCast]
  rw [if_pos]
  exact h.rowOk

/-- The words of a line behind its name. -/
theorem tokens_tail (h : LineOk l) :
    Scan.tokens (' ' :: (l.mac ++ ' ' :: (l.ip ++ ' ' :: (Nat.toDigits 10 l.expires ++
      ' ' :: l.action :: ' ' :: l.matching :: ' ' :: (l.domain ++ ['\n']))))) = 6 := by
  have haction : Scan.Field [l.action] :=
    ⟨cons_ne_nil _ _, fun c hc => mem_singleton.mp hc ▸ h.action_solid⟩
  have hmatching : Scan.Field [l.matching] :=
    ⟨cons_ne_nil _ _, fun c hc => mem_singleton.mp hc ▸ h.matching_solid⟩
  have hnewline : Scan.tokens ['\n'] = 0 := rfl
  have h1 := Scan.tokens_field haction (stops_space (l.matching :: ' ' :: (l.domain ++ ['\n'])))
  have h2 := Scan.tokens_field hmatching (stops_space (l.domain ++ ['\n']))
  rw [singleton_append] at h1 h2
  rw [Scan.tokens_space isSpace_space, Scan.tokens_field h.mac (stops_space _),
    Scan.tokens_space isSpace_space, Scan.tokens_field h.ip (stops_space _),
    Scan.tokens_space isSpace_space, Scan.tokens_field (Scan.field_decimal _) (stops_space _),
    Scan.tokens_space isSpace_space, h1, Scan.tokens_space isSpace_space, h2,
    Scan.tokens_space isSpace_space, Scan.tokens_field h.domain (stops_newline _), hnewline]

/-- **A name of 96 characters spoils its line**: the last one is read as the next field, and so a
    word is left for the ninth conversion. -/
theorem scanRow_long (h : LineOk l) (hid : l.id.length = 96) : scanRow l.text = none := by
  have hdrop : Scan.Field (l.id.drop 95) := by
    refine ⟨?_, fun c hc => h.id.solid c (mem_of_mem_drop hc)⟩
    intro hnil
    have hlen := congrArg List.length hnil
    rw [length_drop, hid] at hlen
    cases hlen
  have htokens := Scan.tokens_field hdrop (stops_space (l.mac ++ ' ' :: (l.ip ++ ' ' ::
    (Nat.toDigits 10 l.expires ++ ' ' :: l.action :: ' ' :: l.matching :: ' ' ::
      (l.domain ++ ['\n'])))))
  rw [tokens_tail h] at htokens
  unfold scanRow Line.text
  simp only [Scan.char_cons h.kind_solid, bind_eq_bind, bind_some,
    Scan.word_space isSpace_space, Scan.word_take h.id (by decide : 0 < 95) (stops_space _)]
  generalize l.id.drop 95 ++ _ = s1 at htokens ⊢
  -- seven words are left for the six conversions that follow
  cases h2 : Scan.word 17 s1 with
  | none => rfl
  | some p2 =>
  obtain ⟨mac, s2⟩ := p2
  have t2 := Scan.tokens_word h2
  rw [bind_some]
  dsimp only
  cases h3 : Scan.word 63 s2 with
  | none => rfl
  | some p3 =>
  obtain ⟨ip, s3⟩ := p3
  have t3 := Scan.tokens_word h3
  rw [bind_some]
  dsimp only
  cases h4 : Scan.int s3 with
  | none => rfl
  | some p4 =>
  obtain ⟨expiry, s4⟩ := p4
  have t4 := Scan.tokens_int h4
  rw [bind_some]
  dsimp only
  cases h5 : Scan.char s4 with
  | none => rfl
  | some p5 =>
  obtain ⟨action, s5⟩ := p5
  have t5 := Scan.tokens_char h5
  rw [bind_some]
  dsimp only
  cases h6 : Scan.char s5 with
  | none => rfl
  | some p6 =>
  obtain ⟨matching, s6⟩ := p6
  have t6 := Scan.tokens_char h6
  rw [bind_some]
  dsimp only
  cases h7 : Scan.word 253 s6 with
  | none => rfl
  | some p7 =>
  obtain ⟨domain, s7⟩ := p7
  have t7 := Scan.tokens_word h7
  obtain ⟨p8, h8⟩ := Scan.char_isSome (s := s7) (by omega)
  rw [bind_some]
  dsimp only
  rw [h8, isSome_some, if_pos rfl]

end DreamingOS.DnsPolicy
