import DreamingOS.Snapshot.RoundTrip

namespace DreamingOS.Snapshot

open Text List

/-!
# Configuration snapshots — secrets of a UCI file

What becomes of the secret options of a configuration as libuci writes it.

* `Package`, `Package.write` — sections with options and lists, and their text: values in single
  quotes, a quote inside as `'\''`;
* `Isolated` — the line of an element has the reference, and the vault was given the whole value;
* **`isolation_iff`** — all secrets are isolated exactly when each is an option whose value has
  neither a quote nor a newline: the scan goes line by line and takes the first quote as the end.
-/

/-! ### Configurations -/

/-- A name of a section, an option or a list. -/
structure UciName where
  bytes : List UInt8
  ne_nil : bytes ≠ []
  name : ∀ b ∈ bytes, isAlnum b ∨ b = underscore

/-- A type of a section: visible characters. -/
structure UciType where
  bytes : List UInt8
  ne_nil : bytes ≠ []
  visible : ∀ b ∈ bytes, 33 ≤ b ∧ b ≤ 126

inductive UciValue where
  | string (value : List UInt8)
  | list (values : List (List UInt8))

structure UciOption where
  name : UciName
  value : UciValue

/-- A section; an anonymous one has no name. -/
structure UciSection where
  type : UciType
  name : Option UciName
  options : List UciOption

abbrev Package := List UciSection

/-- A quoted value: a quote inside ends the quoted part, is escaped, and begins the next one. -/
def uciEscape (value : List UInt8) : List UInt8 :=
  value.flatMap fun b => if b = quote then [quote, 92, quote, quote] else [b]

/-- What libuci writes in one go: the beginning of a section, an option, or a value of a list. -/
inductive Element where
  | config (type : UciType) (name : Option UciName)
  | option (name : UciName) (value : List UInt8)
  | list (name : UciName) (value : List UInt8)

def UciOption.elements (o : UciOption) : List Element :=
  match o.value with
  | .string value => [.option o.name value]
  | .list values => values.map (.list o.name)

def UciSection.elements (s : UciSection) : List Element :=
  .config s.type s.name :: s.options.flatMap UciOption.elements

def Package.elements (pkg : Package) : List Element := pkg.flatMap UciSection.elements

/-- A line of an option, with the text that is written between the quotes. -/
def optionLine (name : UciName) (raw : List UInt8) : List UInt8 :=
  tab :: (OPTION ++ name.bytes ++ [space, quote]) ++ raw ++ [quote, newline]

def listLine (name : UciName) (raw : List UInt8) : List UInt8 :=
  tab :: (ascii ['l', 'i', 's', 't', ' '] ++ name.bytes ++ [space, quote]) ++ raw ++ [quote, newline]

def Element.write : Element → List UInt8
  | .config type none => newline :: (ascii ['c', 'o', 'n', 'f', 'i', 'g', ' '] ++
      uciEscape type.bytes ++ [newline])
  | .config type (some name) => newline :: (ascii ['c', 'o', 'n', 'f', 'i', 'g', ' '] ++
      uciEscape type.bytes ++ [space, quote] ++ name.bytes ++ [quote, newline])
  | .option name value => optionLine name (uciEscape value)
  | .list name value => listLine name (uciEscape value)

/-- The text of some elements. -/
def writeElements (es : List Element) : List UInt8 := es.flatMap Element.write

/-- The text of a configuration. -/
def Package.write (pkg : Package) : List UInt8 := writeElements pkg.elements ++ [newline]

/-! ### Secrets -/

/-- The secret of an element: a value that is not empty, under a key for secrets. -/
def Element.secret : Element → Option (UciName × List UInt8)
  | .config _ _ => none
  | .option name value | .list name value =>
    if secretOptionKey name.bytes ∧ value ≠ [] then some (name, value) else none

section
variable {σ : Type}

/-- The encoder, having got through the text in front, stores the whole value and writes a line with
    the reference in its place. -/
def Isolated (vault : Vault σ) (basename : List UInt8) (v : σ) (front : List UInt8)
    (name : UciName) (value : List UInt8) (st : EncState σ) : Prop :=
  ∃ st₁ id body puts, encodeLines vault basename (lines newline front) { vault := v } = .ok st₁ ∧
    st.body = st₁.body ++ (optionLine name (REF ++ id) ++ body) ∧
    st.puts = st₁.puts ++ (id, value) :: puts

/-- The snapshot holds a body in which every secret of the configuration is isolated. -/
def Isolation (libs : Libs) (vault : Vault σ) (basename : List UInt8) (pkg : Package) (v : σ)
    (out : List UInt8) : Prop :=
  ∃ st comp, encodeLines vault basename (lines newline pkg.write) { vault := v } = .ok st ∧
    libs.compress st.body = some comp ∧
    out = header libs pkg.write st.body ++ comp ∧
    (encode libs vault basename pkg.write v).puts = st.puts ∧
    ∀ front e back name value, pkg.elements = front ++ e :: back → e.secret = some (name, value) →
      Isolated vault basename v (writeElements front) name value st

end

/-! ### The text, element by element -/

/-- The text of an element is made of whole lines. -/
theorem write_ended (e : Element) : ∃ t, e.write = t ++ [newline] := by
  cases e with
  | config type name =>
    cases name with
    | none => exact ⟨newline :: (ascii ['c', 'o', 'n', 'f', 'i', 'g', ' '] ++ uciEscape type.bytes), rfl⟩
    | some name =>
      refine ⟨newline :: (ascii ['c', 'o', 'n', 'f', 'i', 'g', ' '] ++ uciEscape type.bytes ++
        [space, quote] ++ name.bytes ++ [quote]), ?_⟩
      simp [Element.write]
  | option name value =>
    refine ⟨tab :: (OPTION ++ name.bytes ++ [space, quote]) ++ uciEscape value ++ [quote], ?_⟩
    simp [Element.write, optionLine]
  | list name value =>
    refine ⟨tab :: (ascii ['l', 'i', 's', 't', ' '] ++ name.bytes ++ [space, quote]) ++
      uciEscape value ++ [quote], ?_⟩
    simp [Element.write, listLine]

/-- The lines of a configuration are those of its elements. -/
theorem lines_writeElements (es : List Element) (rest : List UInt8) :
    lines newline (writeElements es ++ rest) =
      lines newline (writeElements es) ++ lines newline rest := by
  induction es with
  | nil => rfl
  | cons e es ih =>
    obtain ⟨t, ht⟩ := write_ended e
    have hcons : writeElements (e :: es) = t ++ newline :: writeElements es := by
      rw [writeElements, flatMap_cons, ht, append_assoc]
      rfl
    rw [hcons, append_assoc, cons_append, lines_concat _ t (_ ++ _),
      lines_concat _ t (writeElements es), ih, append_assoc]

/-- A quoted text has a first line. -/
theorem first_line (raw : List UInt8) :
    ∃ p rest, newline ∉ p ∧ raw ++ [quote, newline] = p ++ newline :: rest := by
  have hmem : newline ∈ raw ++ [quote, newline] := by simp
  obtain ⟨p, rest, heq, hp⟩ := eq_append_cons_of_mem hmem
  exact ⟨p, rest, hp, heq⟩

theorem notMem_name (name : UciName) {b : UInt8} (hb : ¬ (isAlnum b ∨ b = underscore)) :
    b ∉ name.bytes := fun hmem => hb (name.name b hmem)

variable {name : UciName}

/-- The scan of the first line of an option with a key for secrets. -/
theorem parseSecret_option (hname : secretOptionKey name.bytes = true) (p : List UInt8) :
    parseSecret (tab :: (OPTION ++ name.bytes ++ [space, quote]) ++ p) =
      parseValue (tab :: (OPTION ++ name.bytes ++ [space, quote]) ++ p) (quote :: p) := by
  have hblank : ∀ b ∈ name.bytes, isBlank b = false := by
    intro b hb
    by_contra hb'
    have hcases : b = space ∨ b = tab := by
      rw [Bool.not_eq_false, isBlank] at hb'
      simpa using hb'
    rcases hcases with rfl | rfl
    · exact notMem_name name (by decide) hb
    · exact notMem_name name (by decide) hb
  have hstart : (tab :: (OPTION ++ name.bytes ++ [space, quote]) ++ p).dropWhile isBlank =
      OPTION ++ (name.bytes ++ space :: quote :: p) := by
    have hassoc : tab :: (OPTION ++ name.bytes ++ [space, quote]) ++ p =
        tab :: (OPTION ++ (name.bytes ++ space :: quote :: p)) := by simp
    rw [hassoc]
    rfl
  have hprefix : OPTION.isPrefixOf (OPTION ++ (name.bytes ++ space :: quote :: p)) = true :=
    isPrefixOf_iff_prefix.mpr (prefix_append _ _)
  have hdrop : (OPTION ++ (name.bytes ++ space :: quote :: p)).drop 7 =
      name.bytes ++ space :: quote :: p := rfl
  have hkey : (name.bytes ++ space :: quote :: p).dropWhile isBlank =
      name.bytes ++ space :: quote :: p := by
    obtain ⟨b, bs, hcons⟩ := exists_cons_of_ne_nil name.ne_nil
    have hb := hblank b (hcons ▸ mem_cons_self)
    rw [hcons, cons_append, dropWhile_cons_of_neg (by simp [hb])]
  have hword : ∀ b ∈ name.bytes, (!isBlank b) = true := fun b hb => by rw [hblank b hb]; rfl
  have htake : (name.bytes ++ space :: quote :: p).takeWhile (fun c => !isBlank c) =
      name.bytes := by
    rw [takeWhile_append_of_pos hword, takeWhile_cons_of_neg (by decide), append_nil]
  have hrest : ((name.bytes ++ space :: quote :: p).dropWhile fun c => !isBlank c).dropWhile
      isBlank = quote :: p := by
    rw [dropWhile_append_of_pos hword, dropWhile_cons_of_neg (by decide)]
    rfl
  unfold parseSecret
  simp only [hstart, hprefix, not_true_eq_false, if_false, hdrop, hkey, htake, hname, hrest]

/-- A value of a list is never scanned for a secret. -/
theorem parseSecret_list (name : UciName) (p : List UInt8) :
    parseSecret (tab :: (ascii ['l', 'i', 's', 't', ' '] ++ name.bytes ++ [space, quote]) ++ p) =
      none := rfl

variable {value : List UInt8}

theorem uciEscape_eq_self (h : quote ∉ value) : uciEscape value = value := by
  induction value with
  | nil => rfl
  | cons b value ih =>
    have hb : b ≠ quote := fun heq => h (heq ▸ mem_cons_self)
    rw [uciEscape, flatMap_cons, if_neg hb, singleton_append]
    exact congrArg (b :: ·) (ih fun hmem => h (mem_cons_of_mem _ hmem))

/-! ### The encoder at an element -/

section
variable {σ : Type} {vault : Vault σ} {basename : List UInt8}

theorem encodeLines_append (ls ls' : List (List UInt8 × Bool)) (st : EncState σ) :
    encodeLines vault basename (ls ++ ls') st =
      encodeLines vault basename ls st >>= encodeLines vault basename ls' := by
  induction ls generalizing st with
  | nil => rfl
  | cons line ls ih =>
    rw [cons_append, encodeLines, encodeLines, bind_assoc]
    exact congrArg _ (funext ih)

variable {line : List UInt8}

/-- What the encoder adds for a line, with all that is behind it. -/
theorem encodeLines_line {ls : List (List UInt8 × Bool)} {st₁ st : EncState σ}
    (h : encodeLines vault basename ((line, true) :: ls) st₁ = .ok st) :
    (parseSecret line = none ∧ ∃ body, st.body = st₁.body ++ (line ++ newline :: body)) ∨
    ∃ s id body puts, parseSecret line = some s ∧
      st.body = st₁.body ++ (s.before ++ (REF ++ (id ++ (s.after ++ newline :: body)))) ∧
      st.puts = st₁.puts ++ (id, s.secret) :: puts := by
  obtain ⟨st₂, hline, hrest⟩ := except_bind_eq_ok h
  obtain ⟨body, puts, hbody, hputs, -⟩ := encodeLines_spec hrest
  rcases encodeLine_eq_ok hline with ⟨hnone, hbody₂, -⟩ | ⟨s, id, hsome, -, hbody₂, hputs₂⟩
  · refine .inl ⟨hnone, body, ?_⟩
    rw [hbody, hbody₂]
    simp [ended]
  · refine .inr ⟨s, id, body, puts, hsome, ?_, ?_⟩
    · rw [hbody, hbody₂]
      simp
    · rw [hputs, hputs₂]
      simp

variable {front back : List Element}
variable {st : EncState σ} {pkg : Package} {v : σ} {e : Element}

/-- The encoder comes to the first line of every element, behind the text in front of it. -/
theorem encodeLines_element {rest : List UInt8}
    (hlines : encodeLines vault basename (lines newline pkg.write) { vault := v } = .ok st)
    (hsplit : pkg.elements = front ++ e :: back) (he : e.write = line ++ newline :: rest)
    (hline : newline ∉ line) :
    ∃ st₁ ls,
      encodeLines vault basename (lines newline (writeElements front)) { vault := v } = .ok st₁ ∧
      encodeLines vault basename ((line, true) :: ls) st₁ = .ok st ∧ line <:+: pkg.write := by
  have htext : pkg.write = writeElements front ++ (line ++ newline ::
      (rest ++ (writeElements back ++ [newline]))) := by
    rw [Package.write, hsplit, writeElements, flatMap_append, flatMap_cons, he]
    simp [writeElements]
  have hinText : line <:+: pkg.write :=
    ⟨writeElements front, newline :: (rest ++ (writeElements back ++ [newline])), by simp [htext]⟩
  rw [htext, lines_writeElements, lines_append hline, encodeLines_append] at hlines
  obtain ⟨st₁, hfront, hrest⟩ := except_bind_eq_ok hlines
  exact ⟨st₁, _, hfront, hrest, hinText⟩

/-- The scan of an option with a plain value takes all of it. -/
theorem parseValue_plain (hquote : quote ∉ value) (hne : value ≠ []) (front : List UInt8) :
    parseValue (front ++ (value ++ [quote])) (quote :: (value ++ [quote])) =
      some { before := front, secret := value, after := [quote] } := by
  have hword : ∀ b ∈ value, decide (b ≠ quote) = true := by
    intro b hb
    have hb' : b ≠ quote := fun heq => hquote (heq ▸ hb)
    simpa using hb'
  have htake : (value ++ [quote]).takeWhile (· ≠ quote) = value := by
    rw [takeWhile_append_of_pos hword, takeWhile_cons_of_neg (by decide), append_nil]
  have hdrop : (value ++ [quote]).dropWhile (· ≠ quote) = [quote] := by
    rw [dropWhile_append_of_pos hword, dropWhile_cons_of_neg (by decide)]
  have hlen : (front ++ (value ++ [quote])).length - (value ++ [quote]).length = front.length := by
    simp
  rw [parseValue, if_neg (by simp)]
  simp only [htake, hdrop, hlen, take_left, if_neg hne]
  rfl

/-- A plain value of an option is isolated. -/
theorem isolated_of_plain
    (hlines : encodeLines vault basename (lines newline pkg.write) { vault := v } = .ok st)
    (hsplit : pkg.elements = front ++ .option name value :: back)
    (hname : secretOptionKey name.bytes = true) (hne : value ≠ []) (hquote : quote ∉ value)
    (hnl : newline ∉ value) :
    Isolated vault basename v (writeElements front) name value st := by
  have hwrite : (Element.option name value).write =
      (tab :: (OPTION ++ name.bytes ++ [space, quote]) ++ (value ++ [quote])) ++ newline :: [] := by
    rw [Element.write, optionLine, uciEscape_eq_self hquote]
    simp
  have hline : newline ∉ tab :: (OPTION ++ name.bytes ++ [space, quote]) ++ (value ++ [quote]) := by
    have hbytes := notMem_name name (b := newline) (by decide)
    have hopt : newline ∉ OPTION := by decide
    simp [hbytes, hopt, hnl]
    decide
  obtain ⟨st₁, ls, hfront, hrest, -⟩ := encodeLines_element hlines hsplit hwrite hline
  have hparse := parseSecret_option hname (value ++ [quote])
  rw [parseValue_plain hquote hne] at hparse
  rcases encodeLines_line hrest with ⟨hnone, -⟩ | ⟨s, id, body, puts, hsome, hbody, hputs⟩
  · rw [hparse] at hnone
    cases hnone
  · rw [hparse] at hsome
    cases hsome
    refine ⟨st₁, id, body, puts, hfront, ?_, hputs⟩
    rw [hbody]
    simp [optionLine]

/-- The secret of a scan ends in front of the first quote. -/
theorem parseValue_secret {value : List UInt8} {q : UInt8} {s : SecretLine}
    (h : parseValue line (q :: value) = some s) : s.secret = value.takeWhile (· ≠ q) := by
  rw [parseValue] at h
  split at h
  · cases h
  split at h
  · cases h
  split at h
  · cases h
  · cases h
    rfl

/-- A line that goes on like one with a reference has the reference. -/
theorem ref_of_append_eq {p id rest rest' : List UInt8}
    (h : p ++ newline :: rest = REF ++ (id ++ rest')) : REF <:+: p := by
  rcases append_eq_append_iff.mp h with ⟨more, href, hmore⟩ | ⟨more, hp, -⟩
  · cases more with
    | nil => exact ⟨[], [], by simpa using href⟩
    | cons b more =>
      -- a reference has no newline
      have hb : newline = b := (List.cons.inj hmore).1
      have hmem : newline ∈ REF := by
        rw [href, hb]
        simp
      exact absurd hmem (by decide)
  · exact ⟨[], more, hp.symm⟩

theorem secret_eq_some {key : UciName} {value value' : List UInt8}
    (h : (if secretOptionKey key.bytes ∧ value ≠ [] then some (key, value) else none) =
      some (name, value')) :
    key = name ∧ value = value' ∧ secretOptionKey name.bytes = true ∧ value' ≠ [] := by
  split at h
  · next hcond =>
    cases h
    exact ⟨rfl, rfl, hcond⟩
  · cases h

/-- What is isolated is a plain value of an option. -/
theorem plain_of_isolated (hclean : ¬ REF <:+: pkg.write)
    (hlines : encodeLines vault basename (lines newline pkg.write) { vault := v } = .ok st)
    (hsplit : pkg.elements = front ++ e :: back) (he : e.secret = some (name, value))
    (h : Isolated vault basename v (writeElements front) name value st) :
    e = .option name value ∧ quote ∉ value ∧ newline ∉ value := by
  obtain ⟨st₁, id, body, puts, hfront, hbody, hputs⟩ := h
  obtain ⟨p, rest, hp, hfirst⟩ := first_line (uciEscape value)
  have hbytes := notMem_name name (b := newline) (by decide)
  cases e with
  | config type name' => cases he
  | list name' value' =>
    obtain ⟨rfl, rfl, hname, hne⟩ := secret_eq_some he
    have hwrite : (Element.list name' value').write =
        (tab :: (ascii ['l', 'i', 's', 't', ' '] ++ name'.bytes ++ [space, quote]) ++ p) ++
          newline :: rest := by
      rw [Element.write, listLine, append_assoc, hfirst, ← append_assoc]
    have hline : newline ∉ tab :: (ascii ['l', 'i', 's', 't', ' '] ++ name'.bytes ++
        [space, quote]) ++ p := by
      have hlist : newline ∉ ascii ['l', 'i', 's', 't', ' '] := by decide
      simp [hbytes, hlist, hp]
      decide
    obtain ⟨st₁', ls, hfront', hrest, -⟩ := encodeLines_element hlines hsplit hwrite hline
    cases hfront.symm.trans hfront'
    rcases encodeLines_line hrest with ⟨-, body', hbody'⟩ | ⟨s, id', _, _, hsome, -⟩
    · -- the line is copied, and begins with another word
      rw [hbody] at hbody'
      have hcopy := append_cancel_left hbody'
      exact absurd (congrArg (fun l => l.drop 1 |>.head?) hcopy) (by
        show ¬ some (111 : UInt8) = some 108
        decide)
    · cases (parseSecret_list name' p).symm.trans hsome
  | option name' value' =>
    obtain ⟨rfl, rfl, hname, hne⟩ := secret_eq_some he
    have hwrite : (Element.option name' value').write =
        (tab :: (OPTION ++ name'.bytes ++ [space, quote]) ++ p) ++ newline :: rest := by
      rw [Element.write, optionLine, append_assoc, hfirst, ← append_assoc]
    have hline : newline ∉ tab :: (OPTION ++ name'.bytes ++ [space, quote]) ++ p := by
      have hopt : newline ∉ OPTION := by decide
      simp [hbytes, hopt, hp]
      decide
    obtain ⟨st₁', ls, hfront', hrest, hinText⟩ := encodeLines_element hlines hsplit hwrite hline
    cases hfront.symm.trans hfront'
    refine ⟨rfl, ?_⟩
    rcases encodeLines_line hrest with ⟨-, body', hbody'⟩ | ⟨s, id', _, _, hsome, -, hputs'⟩
    · -- the line is copied, so the reference would stand in the text
      rw [hbody] at hbody'
      have hcopy := append_cancel_left hbody'
      have hvalue : p ++ newline :: body' = REF ++ (id ++ (quote :: newline :: body)) := by
        have hpre : (tab :: (OPTION ++ name'.bytes ++ [space, quote])) ++
            (REF ++ (id ++ (quote :: newline :: body))) =
            (tab :: (OPTION ++ name'.bytes ++ [space, quote])) ++ (p ++ newline :: body') := by
          rw [← append_assoc _ p, ← hcopy]
          simp [optionLine]
        exact (append_cancel_left hpre).symm
      have hinLine : p <:+: tab :: (OPTION ++ name'.bytes ++ [space, quote]) ++ p :=
        (suffix_append _ _).isInfix
      exact absurd ((ref_of_append_eq hvalue).trans (hinLine.trans hinText)) hclean
    · -- the secret that was stored is what the scan found
      rw [hputs] at hputs'
      have hcons := (List.cons.inj (append_cancel_left hputs')).1
      have hsecret : value' = s.secret := (Prod.mk.inj hcons).2
      rw [parseSecret_option hname] at hsome
      rw [hsecret, parseValue_secret hsome]
      refine ⟨?_, ?_⟩
      · intro hmem
        simpa using mem_takeWhile_imp hmem
      · intro hmem
        exact hp (( takeWhile_prefix _).subset hmem)

/-- **What becomes of the secrets.** In a snapshot of a configuration every secret has made way for a
    reference, with the whole value in the vault, exactly when each is an option and no value has a
    quote or a newline. -/
theorem isolation_iff (libs : Libs) (vault : Vault σ) (basename : List UInt8) (pkg : Package)
    (v : σ) (out : List UInt8) (hok : (encode libs vault basename pkg.write v).result = .ok out) :
    Isolation libs vault basename pkg v out ↔
      ∀ e ∈ pkg.elements, ∀ name value, e.secret = some (name, value) →
        e = .option name value ∧ quote ∉ value ∧ newline ∉ value := by
  obtain ⟨st, comp, -, -, hclean, hlines, hputs, hcomp, hout⟩ := encode_eq_ok hok
  apply Iff.intro
  · rintro ⟨st', comp', hlines', -, -, -, hall⟩ e he name value hsecret
    cases hlines.symm.trans hlines'
    obtain ⟨front, back, hsplit⟩ := append_of_mem he
    exact plain_of_isolated hclean hlines hsplit hsecret
      (hall front e back name value hsplit hsecret)
  · intro hplain
    refine ⟨st, comp, hlines, hcomp, hout, hputs, ?_⟩
    intro front e back name value hsplit hsecret
    have hmem : e ∈ pkg.elements := by
      rw [hsplit]
      exact mem_append_right _ mem_cons_self
    obtain ⟨rfl, hquote, hnl⟩ := hplain e hmem name value hsecret
    obtain ⟨-, -, hname, hne⟩ := secret_eq_some hsecret
    exact isolated_of_plain hlines hsplit hname hne hquote hnl

end

/-! ### Two configurations -/

def interfaceType : UciType where
  bytes := ascii ['i', 'n', 't', 'e', 'r', 'f', 'a', 'c', 'e']
  ne_nil := by decide
  visible := by decide +kernel

def wanName : UciName where
  bytes := ascii ['w', 'a', 'n']
  ne_nil := by decide
  name := by decide +kernel

def passwordName : UciName where
  bytes := ascii ['p', 'a', 's', 's', 'w', 'o', 'r', 'd']
  ne_nil := by decide
  name := by decide +kernel

/-- An interface with a password. -/
def passwordPackage (value : List UInt8) : Package :=
  [⟨interfaceType, some wanName, [⟨passwordName, .string value⟩]⟩]

/-- The body of `passwordPackage`, with what is left between the reference and the newline. -/
def passwordBody (left : List UInt8) : List UInt8 :=
  writeElements [.config interfaceType (some wanName)] ++
    tab :: (OPTION ++ passwordName.bytes ++ [space, quote]) ++
    REF ++ SECRET_ID_PREFIX ++ NETWORK ++ [colon, 48] ++ left ++ [newline, newline]

/-- The libraries at the password `x`. -/
def plainLibs : Libs :=
  knownLibs (passwordPackage (ascii ['x'])).write
    [15, 26, 245, 230, 55, 46, 87, 190, 83, 34, 202, 125, 140, 49, 120, 189, 183, 56, 61, 45, 217,
     54, 115, 182, 128, 26, 229, 3, 22, 31, 226, 43]
    (passwordBody [quote])
    [120, 156, 227, 74, 206, 207, 75, 203, 76, 87, 200, 204, 43, 73, 45, 74, 75, 76, 78, 85, 80,
     47, 79, 204, 83, 231, 226, 204, 47, 40, 201, 204, 207, 83, 40, 72, 44, 46, 46, 207, 47, 74,
     81, 80, 119, 40, 75, 44, 205, 41, 177, 202, 75, 45, 73, 78, 75, 215, 45, 206, 75, 44, 0, 177,
     129, 114, 217, 86, 6, 234, 92, 92, 0, 185, 203, 25, 113]

/-- The password `x` is isolated. -/
theorem isolation_plain :
    ∃ out, (encode plainLibs listVault NETWORK (passwordPackage (ascii ['x'])).write []).result =
      .ok out ∧
    Isolation plainLibs listVault NETWORK (passwordPackage (ascii ['x'])) [] out := by
  have hok : (encode plainLibs listVault NETWORK (passwordPackage (ascii ['x'])).write []).result =
      .ok (header plainLibs (passwordPackage (ascii ['x'])).write (passwordBody [quote]) ++
        [120, 156, 227, 74, 206, 207, 75, 203, 76, 87, 200, 204, 43, 73, 45, 74, 75, 76, 78, 85,
         80, 47, 79, 204, 83, 231, 226, 204, 47, 40, 201, 204, 207, 83, 40, 72, 44, 46, 46, 207,
         47, 74, 81, 80, 119, 40, 75, 44, 205, 41, 177, 202, 75, 45, 73, 78, 75, 215, 45, 206, 75,
         44, 0, 177, 129, 114, 217, 86, 6, 234, 92, 92, 0, 185, 203, 25, 113]) := by
    decide +kernel
  refine ⟨_, hok, (isolation_iff plainLibs listVault NETWORK _ [] _ hok).mpr ?_⟩
  intro e he name value hsecret
  have hcases : e = .config interfaceType (some wanName) ∨ e = .option passwordName (ascii ['x']) := by
    simpa [passwordPackage, Package.elements, UciSection.elements, UciOption.elements] using he
  rcases hcases with rfl | rfl
  · cases hsecret
  · have hif : (if secretOptionKey passwordName.bytes ∧ ascii ['x'] ≠ [] then
        some (passwordName, ascii ['x']) else none) = some (name, value) := hsecret
    obtain ⟨rfl, rfl, -, -⟩ := secret_eq_some hif
    exact ⟨rfl, by decide, by decide⟩

/-- `it's`. -/
def quotedPassword : List UInt8 := ascii ['i', 't', '\'', 's']

/-- The libraries at the password `it's`. -/
def quotedLibs : Libs :=
  knownLibs (passwordPackage quotedPassword).write
    [71, 248, 68, 84, 161, 53, 240, 219, 235, 97, 7, 192, 157, 250, 149, 255, 164, 5, 112, 125,
     210, 159, 129, 141, 16, 13, 221, 229, 218, 204, 31, 138]
    (passwordBody [quote, 92, quote, quote, 115, quote])
    [120, 156, 21, 201, 49, 14, 128, 32, 12, 0, 192, 217, 190, 162, 91, 39, 19, 103, 38, 31, 226,
     210, 32, 16, 130, 105, 9, 173, 242, 125, 117, 187, 228, 32, 170, 228, 90, 176, 138, 167, 145,
     57, 38, 164, 201, 66, 176, 104, 247, 170, 130, 157, 205, 166, 142, 19, 105, 127, 248, 190, 60,
     72, 242, 152, 203, 106, 194, 253, 247, 119, 45, 108, 116, 16, 25, 1, 188, 63, 29, 26, 181]

/-- **A secret that is not isolated.** The vault gets `it`, and the rest of the password stays in the
    body. -/
theorem quoted_not_isolated :
    ∃ out, encode quotedLibs listVault NETWORK (passwordPackage quotedPassword).write [] =
      ⟨.ok out, [(SECRET_ID_PREFIX ++ NETWORK ++ [colon, 48], ascii ['i', 't'])],
        [(SECRET_ID_PREFIX ++ NETWORK ++ [colon, 48], ascii ['i', 't'])]⟩ ∧
    quotedLibs.compress (passwordBody [quote, 92, quote, quote, 115, quote]) =
      some (out.drop (header quotedLibs (passwordPackage quotedPassword).write
        (passwordBody [quote, 92, quote, quote, 115, quote])).length) ∧
    ¬ Isolation quotedLibs listVault NETWORK (passwordPackage quotedPassword) [] out := by
  refine ⟨header quotedLibs (passwordPackage quotedPassword).write
    (passwordBody [quote, 92, quote, quote, 115, quote]) ++
      [120, 156, 21, 201, 49, 14, 128, 32, 12, 0, 192, 217, 190, 162, 91, 39, 19, 103, 38, 31,
       226, 210, 32, 16, 130, 105, 9, 173, 242, 125, 117, 187, 228, 32, 170, 228, 90, 176, 138,
       167, 145, 57, 38, 164, 201, 66, 176, 104, 247, 170, 130, 157, 205, 166, 142, 19, 105, 127,
       248, 190, 60, 72, 242, 152, 203, 106, 194, 253, 247, 119, 45, 108, 116, 16, 25, 1, 188, 63,
       29, 26, 181], ?_, by decide +kernel, ?_⟩
  · decide +kernel
  · rintro ⟨st, comp, hlines, -, -, -, hall⟩
    have hclean : ¬ REF <:+: (passwordPackage quotedPassword).write := by
      rw [← search_eq_none_iff]
      decide +kernel
    have hisolated := hall [.config interfaceType (some wanName)]
      (.option passwordName quotedPassword) [] passwordName quotedPassword rfl rfl
    obtain ⟨-, hquote, -⟩ := plain_of_isolated hclean hlines rfl rfl hisolated
    exact absurd hquote (by decide)

end DreamingOS.Snapshot
