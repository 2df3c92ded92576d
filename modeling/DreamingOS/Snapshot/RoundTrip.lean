import DreamingOS.Snapshot.Header
import DreamingOS.Snapshot.Known
import DreamingOS.Lib.Outcome

namespace DreamingOS.Snapshot

open Text List

/-!
# Configuration snapshots — the way back

When a snapshot can be decoded again.

* `Restores` — a body that resolves to a text, reference by reference;
* `encodeLines_spec` — the body the encoder builds restores its input;
* **`decode_encode_iff`** — a snapshot decodes to its input exactly when the body with its
  references still has the size a decoder accepts;
* `longText_refused` — a body that does not.
-/

/-! ### Bodies that restore a text -/

/-- A body resolves to a text: it is the text, or the reference in it stands for a secret, between
    two bytes that occur in no reference. -/
inductive Restores (get : List UInt8 → Option (List UInt8)) : List UInt8 → List UInt8 → Prop where
  | text {t : List UInt8} (hclean : ¬ REF <:+: t) : Restores get t t
  | ref {front id secret rest plain : List UInt8} {q : UInt8} (hclean : ¬ REF <:+: front ++ [q])
      (hq : q ∉ REF) (hstop : idChar q = false) (hid : ∀ b ∈ id, idChar b = true) (hne : id ≠ [])
      (hlen : id.length < SECRET_ID_MAX) (hget : get id = some secret) (hsecret : secret ≠ [])
      (hrest : Restores get (q :: rest) (q :: plain)) :
      Restores get (front ++ [q] ++ (REF ++ (id ++ q :: rest))) (front ++ [q] ++ (secret ++ q :: plain))

variable {get : List UInt8 → Option (List UInt8)} {front plain : List UInt8}

/-- Clean text may be put in front of a body. -/
theorem Restores.prepend {body : List UInt8}
    (h : Restores get body plain) (hclean : ¬ REF <:+: front ++ plain) :
    Restores get (front ++ body) (front ++ plain) := by
  cases h with
  | text _ => exact .text hclean
  | @ref front' id secret rest plain q _ hq hstop hid hne hlen hget hsecret hrest =>
    have hfront : ¬ REF <:+: front ++ front' ++ [q] := by
      intro hoccurs
      apply hclean
      have hsplit : front ++ (front' ++ [q] ++ (secret ++ q :: plain)) =
          front ++ front' ++ [q] ++ (secret ++ q :: plain) := by simp
      rw [hsplit]
      exact hoccurs.trans (prefix_append _ _).isInfix
    have h := Restores.ref hfront hq hstop hid hne hlen hget hsecret hrest
    simpa using h

theorem restores_nil (h : Restores get [] plain) : plain = [] := by
  generalize hnil : [] = body at h
  cases h with
  | text _ => rfl
  | ref => simp at hnil

/-- The first reference of a body is found. -/
theorem search_ref {q : UInt8} (hclean : ¬ REF <:+: front ++ [q])
    (hq : q ∉ REF) (rest : List UInt8) :
    search REF (front ++ [q] ++ (REF ++ rest)) = some (front ++ [q], REF ++ rest) := by
  apply search_append
  intro b hb hsuffix hpre
  -- an occurrence that begins in front of the reference is either inside the clean text ...
  by_cases hlen : REF.length ≤ b.length
  · have hin : REF <+: b := prefix_of_prefix_length_le hpre (prefix_append _ _) hlen
    exact hclean (hin.isInfix.trans hsuffix.isInfix)
  -- ... or covers the byte in front of it, which no reference has
  have hin : b <+: REF := prefix_of_prefix_length_le (prefix_append _ _) hpre (by omega)
  have hlast : q ∈ b := by
    obtain ⟨c, hc⟩ := hsuffix
    have hqlast := congrArg List.getLast? hc
    rw [getLast?_append_of_ne_nil _ hb, getLast?_concat] at hqlast
    exact mem_of_getLast? hqlast
  exact hq (hin.subset hlast)

section
variable {σ : Type}

theorem bufAppend_of_le {b src : List UInt8} (hb : b.length ≤ MAX_BYTES)
    (hsrc : src.length ≤ MAX_BYTES) : bufAppend b src = some (b ++ src) := by
  unfold bufAppend
  split
  · next h => rw [h, append_nil]
  · rw [if_neg (by omega)]

/-- **Resolving a body.** -/
theorem resolve_restores (vault : Vault σ) (v : σ) {body : List UInt8}
    (h : Restores (vault.get v) body plain) {fuel : ℕ} {rebuilt : List UInt8}
    (hfuel : body.length < fuel) (hbody : body.length ≤ MAX_BYTES)
    (hplain : rebuilt.length + plain.length ≤ MAX_BYTES) :
    resolve vault v fuel body rebuilt = .ok (rebuilt ++ plain) := by
  generalize hB : body = B at h
  generalize hP : plain = P at h
  induction h generalizing body plain fuel rebuilt with
  | @text t hclean =>
    subst hB hP
    cases fuel with
    | zero => omega
    | succ fuel =>
      unfold resolve
      by_cases hnil : plain = []
      · rw [if_pos hnil, hnil, append_nil]
      · rw [if_neg hnil, search_eq_none_iff.mpr hclean]
        rw [bufAppend_of_le (by omega) (by omega)]
  | @ref front id secret rest tail q hclean hq hstop hid hne hlen hget hsecret hrest ih =>
    subst hB hP
    cases fuel with
    | zero => omega
    | succ fuel =>
      have hsplit : (front ++ [q] ++ (REF ++ (id ++ q :: rest))).length =
          front.length + 1 + (REF.length + (id.length + (rest.length + 1))) := by
        simp
        omega
      have hsplit' : (front ++ [q] ++ (secret ++ q :: tail)).length =
          front.length + 1 + (secret.length + (tail.length + 1)) := by
        simp
        omega
      rw [hsplit] at hfuel hbody
      rw [hsplit'] at hplain
      have hid' : ((REF ++ (id ++ q :: rest)).drop REF.length).takeWhile idChar = id := by
        rw [drop_left, takeWhile_append_of_pos hid,
          takeWhile_cons_of_neg (by simp [hstop]), append_nil]
      have hgood : ¬ (id = [] ∨ SECRET_ID_MAX ≤ id.length) := by
        rintro (h | h)
        · exact hne h
        · omega
      have hbehind : (REF ++ (id ++ q :: rest)).drop (REF.length + id.length) = q :: rest := by
        rw [← drop_drop, drop_left, drop_left]
      unfold resolve
      rw [if_neg (by simp), search_ref hclean hq]
      simp only [hid', if_neg hgood, hget, if_neg hsecret, hbehind]
      rw [bufAppend_of_le (by omega) (by simp; omega)]
      simp only []
      rw [bufAppend_of_le (by simp; omega) (by omega)]
      simp only []
      rw [ih (by simp; omega) (by simp; omega) (by simp; omega) rfl rfl]
      simp

end

/-! ### What the scan of a line finds -/

variable {line : List UInt8}

/-- A secret stands between two bytes that are the same quote, and makes up the line with what is
    in front of it and behind it. -/
theorem parseSecret_eq_some {s : SecretLine} (h : parseSecret line = some s) :
    ∃ front q rest, (q = quote ∨ q = dquote) ∧ s.before = front ++ [q] ∧ s.after = q :: rest ∧
      s.secret ≠ [] ∧ q ∉ s.secret ∧ s.before ++ (s.secret ++ s.after) = line := by
  unfold parseSecret at h
  simp only at h
  replace h := (Outcome.passed h nofun).2
  replace h := (Outcome.passed h nofun).2
  generalize hrest : List.dropWhile isBlank (List.dropWhile (fun c => !isBlank c)
    (List.dropWhile isBlank (List.drop 7 (List.dropWhile isBlank line)))) = rest at h
  have hsuffix : rest <:+ line := by
    rw [← hrest]
    exact (dropWhile_suffix _).trans ((dropWhile_suffix _).trans
      ((dropWhile_suffix _).trans ((drop_suffix _ _).trans
        (dropWhile_suffix _))))
  unfold parseValue at h
  split at h
  · cases h
  rename_i q value
  obtain ⟨hquote, h⟩ := Outcome.passed h nofun
  obtain ⟨hend, h⟩ := Outcome.passed h nofun
  obtain ⟨hempty, h⟩ := Outcome.passed h nofun
  cases h
  obtain ⟨front, rfl⟩ := hsuffix
  have hq : q = quote ∨ q = dquote := by
    by_contra hno
    rw [not_or] at hno
    exact hquote hno
  obtain ⟨c, after, hafter⟩ := exists_cons_of_ne_nil hend
  have hc : c = q := by
    have hstop := head_dropWhile_not (· ≠ q) hend
    simp only [hafter, head_cons] at hstop
    simpa using hstop
  have hbefore : (front ++ q :: value).take
      ((front ++ q :: value).length - value.length) = front ++ [q] := by
    have hlen : (front ++ q :: value).length - value.length = front.length + 1 := by
      simp
      omega
    rw [hlen, take_append, take_of_length_le (by omega)]
    simp
  refine ⟨front, q, after, hq, hbefore, hc ▸ hafter, hempty, ?_, ?_⟩
  · intro hmem
    simpa using mem_takeWhile_imp hmem
  · rw [hbefore]
    show front ++ [q] ++ (value.takeWhile (· ≠ q) ++ value.dropWhile (· ≠ q)) = _
    rw [takeWhile_append_dropWhile, append_assoc]
    rfl

variable {basename : List UInt8}

theorem secretId_eq_some {id : List UInt8} {seq : ℕ} (h : secretId basename seq = some id) :
    (∀ b ∈ id, idChar b = true) ∧ id ≠ [] ∧ id.length < SECRET_ID_MAX ∧
      id.length = (SECRET_ID_PREFIX ++ basename ++ [colon] ++ decimal seq).length := by
  unfold secretId at h
  replace h := (Outcome.passed h nofun).2
  simp only at h
  obtain ⟨hlen, h⟩ := Outcome.passed h nofun
  cases h
  refine ⟨?_, by simp, by simpa using hlen, length_map _⟩
  intro b hb
  obtain ⟨c, -, rfl⟩ := List.mem_map.mp hb
  split
  · next hc => exact hc
  · decide

/-! ### The body the encoder builds -/

/-- The secrets of a configuration. -/
def secrets (plain : List UInt8) : List (List UInt8) :=
  (lines newline plain).filterMap fun line => (parseSecret line.1).map SecretLine.secret

/-- The length of the reference to the secret of a number. -/
def refLength (basename : List UInt8) (seq : ℕ) : ℕ :=
  (REF ++ (SECRET_ID_PREFIX ++ basename ++ [colon] ++ decimal seq)).length
variable {libs : Libs}


section
variable {σ : Type}

theorem except_bind_eq_ok {ε α β : Type} {x : Except ε α} {f : α → Except ε β} {b : β}
    (h : (x >>= f) = .ok b) : ∃ a, x = .ok a ∧ f a = .ok b := by
  cases x with
  | error e => cases h
  | ok a => exact ⟨a, rfl, h⟩

variable {src : List UInt8}

theorem bufAppend_eq_some {b out : List UInt8} (h : bufAppend b src = some out) :
    out = b ++ src := by
  unfold bufAppend at h
  split at h
  · next hnil =>
    cases h
    rw [hnil, append_nil]
  · split at h
    · cases h
    · cases h
      rfl

variable {st st' : EncState σ}

theorem append_eq_ok (h : st.append src = .ok st') : st' = { st with body := st.body ++ src } := by
  unfold EncState.append at h
  split at h
  · next body hbody =>
    cases h
    rw [bufAppend_eq_some hbody]
  · cases h

theorem appendNewline_eq_ok {mark : Bool} (h : st.appendNewline mark = .ok st') :
    st' = { st with body := st.body ++ if mark then [newline] else [] } := by
  unfold EncState.appendNewline at h
  split at h
  · next hmark => rw [append_eq_ok h, if_pos hmark]
  · next hmark =>
    cases h
    rw [if_neg hmark, append_nil]

variable {vault : Vault σ}

/-- What a step of the encoding loop adds to the body. -/
theorem encodeLine_eq_ok
    {line : List UInt8 × Bool} (h : encodeLine vault basename st line = .ok st') :
    (parseSecret line.1 = none ∧ st'.body = st.body ++ ended newline line ∧ st'.puts = st.puts) ∨
    ∃ s id, parseSecret line.1 = some s ∧ secretId basename st.puts.length = some id ∧
      st'.body = st.body ++ (s.before ++ (REF ++ (id ++ s.after)) ++
        if line.2 then [newline] else []) ∧
      st'.puts = st.puts ++ [(id, s.secret)] := by
  unfold encodeLine at h
  split at h
  · next hnone =>
    obtain ⟨st₁, h₁, h⟩ := except_bind_eq_ok h
    rw [appendNewline_eq_ok h, append_eq_ok h₁]
    exact .inl ⟨hnone, by simp [ended], rfl⟩
  · next s hsome =>
    replace h := (Outcome.passed h (by rintro ⟨⟩)).2
    split at h
    · cases h
    rename_i id hid
    split at h
    · cases h
    rename_i v hput
    obtain ⟨st₁, h₁, h⟩ := except_bind_eq_ok h
    obtain ⟨st₂, h₂, h⟩ := except_bind_eq_ok h
    obtain ⟨st₃, h₃, h⟩ := except_bind_eq_ok h
    rw [appendNewline_eq_ok h, append_eq_ok h₃, append_eq_ok h₂, append_eq_ok h₁]
    exact .inr ⟨s, id, hsome, hid, by simp, rfl⟩

/-- **The body the encoder builds.** It restores the lines when the stored secrets are returned,
    and each secret has made way for a reference of known length. -/
theorem encodeLines_spec {ls : List (List UInt8 × Bool)}
    (h : encodeLines vault basename ls st = .ok st') :
    ∃ body puts, st'.body = st.body ++ body ∧ st'.puts = st.puts ++ puts ∧ puts.map Prod.snd =
        ls.filterMap (fun line => (parseSecret line.1).map SecretLine.secret) ∧
      body.length + (puts.map fun p => p.2.length).sum = (ls.flatMap (ended newline)).length +
          ((List.range' st.puts.length puts.length).map (refLength basename)).sum ∧
      ∀ get : List UInt8 → Option (List UInt8), (∀ p ∈ puts, get p.1 = some p.2) →
        ¬ REF <:+: ls.flatMap (ended newline) →
        Restores get body (ls.flatMap (ended newline)) := by
  induction ls generalizing st with
  | nil =>
    cases h
    refine ⟨[], [], by simp, by simp, rfl, rfl, fun get _ hclean => .text hclean⟩
  | cons line ls ih =>
    obtain ⟨st₁, hline, h⟩ := except_bind_eq_ok h
    obtain ⟨body, puts, hbody, hputs, hsnd, hlen, hrestores⟩ := ih h
    rcases encodeLine_eq_ok hline with ⟨hnone, hbody₁, hputs₁⟩ | ⟨s, id, hsome, hid, hbody₁, hputs₁⟩
    · refine ⟨ended newline line ++ body, puts, ?_, ?_, ?_, ?_, ?_⟩
      · rw [hbody, hbody₁, append_assoc]
      · rw [hputs, hputs₁]
      · rw [hsnd, filterMap_cons, hnone]
        rfl
      · rw [hputs₁] at hlen
        rw [flatMap_cons, length_append, length_append]
        omega
      · intro get hget hclean
        rw [flatMap_cons] at hclean ⊢
        have hclean' : ¬ REF <:+: ls.flatMap (ended newline) := fun hoccurs =>
          hclean (hoccurs.trans (suffix_append _ _).isInfix)
        exact (hrestores get hget hclean').prepend hclean
    · obtain ⟨front, q, rest, hq, hbefore, hafter, hne, -, hjoin⟩ := parseSecret_eq_some hsome
      obtain ⟨hidChar, hidNe, hidLt, hidLen⟩ := secretId_eq_some hid
      set nl : List UInt8 := if line.2 then [newline] else [] with hnl
      have hline' : ended newline line = front ++ [q] ++ (s.secret ++ q :: (rest ++ nl)) := by
        rw [ended, ← hjoin, hbefore, hafter]
        simp [hnl]
      refine ⟨front ++ [q] ++ (REF ++ (id ++ q :: (rest ++ nl ++ body))), (id, s.secret) :: puts,
        ?_, ?_, ?_, ?_, ?_⟩
      · rw [hbody, hbody₁, hbefore, hafter]
        simp
      · rw [hputs, hputs₁, append_assoc]
        rfl
      · rw [map_cons, hsnd, filterMap_cons, hsome]
        rfl
      · rw [hputs₁, length_append, length_singleton] at hlen
        have href : refLength basename st.puts.length = REF.length + id.length := by
          rw [refLength, length_append, hidLen]
        rw [flatMap_cons, hline', map_cons, length_cons, range'_succ,
          map_cons, sum_cons, sum_cons, href]
        simp only [length_append, length_cons, length_nil] at hlen ⊢
        omega
      · intro get hget hclean
        rw [flatMap_cons, hline'] at hclean ⊢
        have htail : ¬ REF <:+: q :: (rest ++ nl) ++ ls.flatMap (ended newline) := by
          intro hoccurs
          apply hclean
          have hsplit : front ++ [q] ++ (s.secret ++ q :: (rest ++ nl)) ++
              ls.flatMap (ended newline) =
              front ++ [q] ++ s.secret ++ (q :: (rest ++ nl) ++ ls.flatMap (ended newline)) := by
            simp
          rw [hsplit]
          exact hoccurs.trans (suffix_append _ _).isInfix
        have hfront : ¬ REF <:+: front ++ [q] := by
          intro hoccurs
          apply hclean
          rw [append_assoc]
          exact hoccurs.trans (prefix_append _ _).isInfix
        have hclean' : ¬ REF <:+: ls.flatMap (ended newline) := fun hoccurs =>
          htail (hoccurs.trans (suffix_append _ _).isInfix)
        have hrest := (hrestores get (fun p hp => hget p (mem_cons_of_mem _ hp))
          hclean').prepend htail
        have hqRef : q ∉ REF := by
          rcases hq with rfl | rfl
          · decide
          · decide
        have hqStop : idChar q = false := by
          rcases hq with rfl | rfl
          · decide
          · decide
        have h := Restores.ref hfront hqRef hqStop hidChar hidNe hidLt
          (hget (id, s.secret) mem_cons_self) hne hrest
        simpa using h

/-! ### Snapshots -/

/-- What an encoding that succeeds has done. -/
theorem encode_eq_ok {out : List UInt8} {v : σ}
    (h : (encode libs vault basename plain v).result = .ok out) :
    ∃ st comp, plain ≠ [] ∧ plain.length ≤ MAX_BYTES ∧ ¬ REF <:+: plain ∧
      encodeLines vault basename (lines newline plain) { vault := v } = .ok st ∧
      (encode libs vault basename plain v).puts = st.puts ∧
      libs.compress st.body = some comp ∧ out = header libs plain st.body ++ comp := by
  unfold encode at h ⊢
  split at h
  · cases h
  rename_i hinput
  rw [if_neg hinput]
  rw [not_or, not_or] at hinput
  split at h
  · cases h
  rename_i hsearch
  rw [if_neg hsearch]
  have hclean : ¬ REF <:+: plain := by
    rw [← search_eq_none_iff]
    simpa using hsearch
  split at h
  · cases h
  rename_i st hlines
  rw [hlines]
  split at h
  · cases h
  rename_i hputs
  simp only [if_neg hputs]
  split at h
  · cases h
  rename_i out' hout
  cases h
  unfold assemble at hout
  obtain ⟨comp, hcomp, hout⟩ := Option.bind_eq_some_iff.mp hout
  replace hout := (Outcome.passed hout nofun).2
  obtain ⟨out₁, hout₁, hout₂⟩ := Option.bind_eq_some_iff.mp hout
  refine ⟨st, comp, hinput.1, by omega, hclean, rfl, rfl, hcomp, ?_⟩
  rw [bufAppend_eq_some hout₂, bufAppend_eq_some hout₁, nil_append]

/-- The body with its references has a size that a decoder accepts. -/
def Fits (basename plain : List UInt8) : Prop :=
  plain.length + ((List.range (secrets plain).length).map (refLength basename)).sum ≤
    MAX_BYTES + ((secrets plain).map List.length).sum

instance (basename plain : List UInt8) : Decidable (Fits basename plain) :=
  inferInstanceAs (Decidable (_ ≤ _))

/-- **A snapshot is restored exactly when its body fits.** The encoder checks the size of its input,
    the decoder that of the body, in which a reference may be longer than its secret. -/
theorem decode_encode_iff (libs : Libs) (hlibs : libs.Lawful) (vault : Vault σ)
    (basename plain out : List UInt8) (v v' : σ)
    (hok : (encode libs vault basename plain v).result = .ok out)
    (hget : ∀ p ∈ (encode libs vault basename plain v).puts, vault.get v' p.1 = some p.2) :
    decode libs vault v' out = .ok plain ↔ Fits basename plain := by
  obtain ⟨st, comp, hne, hmax, hclean, hlines, hputs, hcomp, rfl⟩ := encode_eq_ok hok
  obtain ⟨body, puts, hbody, hputs', hsnd, hlen, hrestores⟩ := encodeLines_spec hlines
  rw [nil_append] at hbody hputs'
  rw [hputs, hputs'] at hget
  rw [join_lines] at hlen hrestores
  have hrestores := hrestores (vault.get v') hget hclean
  -- the condition is about the length of the body
  have hfits : Fits basename plain ↔ body.length ≤ MAX_BYTES := by
    have hsecrets : puts.map Prod.snd = secrets plain := hsnd
    have hcount : puts.length = (secrets plain).length := by rw [← hsecrets, length_map]
    have hsum : (puts.map fun p => p.2.length).sum = ((secrets plain).map List.length).sum := by
      rw [← hsecrets, List.map_map]
      rfl
    rw [hcount, hsum, length_nil, ← range_eq_range'] at hlen
    unfold Fits
    omega
  rw [hfits, decode_snapshot libs hlibs, hbody]
  by_cases hle : body.length ≤ MAX_BYTES
  · have hgood : ¬ (plain.length = 0 ∨ MAX_BYTES < plain.length ∨ body.length = 0 ∨
        MAX_BYTES < body.length ∨ comp = []) := by
      rintro (h | h | h | h | h)
      · exact hne (length_eq_zero_iff.mp h)
      · omega
      · rw [length_eq_zero_iff.mp h] at hrestores
        exact hne (restores_nil hrestores)
      · omega
      · exact hlibs.compress_ne_nil st.body (h ▸ hcomp)
    rw [hbody] at hcomp
    have hroom : ([] : List UInt8).length + plain.length ≤ MAX_BYTES := by simpa using hmax
    have hresolve := resolve_restores vault v' hrestores (Nat.lt_succ_self _) hle hroom
    rw [if_neg hgood, decodeBody, hlibs.uncompress_compress body comp _ hcomp le_rfl]
    simp only [ne_eq, not_true_eq_false, if_false, hresolve, nil_append, hle, iff_true]
    simp [verify, ciStreq, ciEqual]
  · rw [if_pos (.inr (.inr (.inr (.inl (by omega)))))]
    simp [hle]

end

/-- The configuration with one secret comes back. -/
theorem decode_encode_keyText :
    decode keyLibs listVault (encode keyLibs listVault NETWORK keyText []).vault keySnapshot =
      .ok keyText := by
  have hok : (encode keyLibs listVault NETWORK keyText []).result = .ok keySnapshot := by
    decide +kernel
  apply (decode_encode_iff keyLibs keyLibs_lawful listVault NETWORK keyText keySnapshot [] _ hok
    ?_).mpr
  · decide +kernel
  · decide +kernel

/-! ### A body that does not fit -/

/-- The line behind the secret, which brings `keyText` to the size an encoder accepts. -/
def longLine : List UInt8 := List.replicate (MAX_BYTES - 16) 97

def longText : List UInt8 := keyText ++ longLine

/-- The body of `longText`. -/
def longBody : List UInt8 := keyBody ++ longLine

/-- The zlib stream of `longBody`. -/
def longStream : List UInt8 :=
  [120, 156, 237, 198, 49, 10, 131, 48, 0, 0, 192, 217, 190, 194, 205, 73, 232, 236, 212, 175, 4,
   137, 69, 148, 36, 212, 88, 241, 247, 226, 59, 188, 155, 174, 201, 165, 206, 57, 181, 75, 60,
   219, 238, 243, 15, 251, 90, 135, 20, 235, 56, 125, 251, 45, 133, 114, 255, 200, 191, 101, 120,
   119, 175] ++
    List.replicate 4064 0 ++ [240, 48, 23, 166, 193, 116, 237]

/-- The libraries at `longText`. -/
def longLibs : Libs :=
  knownLibs longText
    [226, 109, 7, 83, 106, 207, 106, 100, 169, 124, 233, 170, 43, 104, 29, 3, 241, 92, 226, 67,
     197, 1, 22, 222, 224, 123, 6, 104, 229, 115, 228, 46]
    longBody longStream

/-- The snapshot of `longText`. -/
def longSnapshot : List UInt8 := header longLibs longText longBody ++ longStream

theorem length_longLine : longLine.length = 4194288 := by
  rw [longLine, length_replicate]
  rfl

theorem length_longText : longText.length = 4194304 := by
  rw [longText, length_append, length_longLine]
  rfl

theorem length_longBody : longBody.length = 4194331 := by
  rw [longBody, length_append, length_longLine]
  rfl

/-- The vault with the secret of `keyText`. -/
def keyVault : List (List UInt8 × List UInt8) :=
  [(SECRET_ID_PREFIX ++ NETWORK ++ [colon, 48], ascii ['x'])]

/-- The line of `keyText`. -/
def keyLine : List UInt8 := keyText.dropLast

/-- The encoding loop on `keyText` and a last line behind it. -/
theorem encodeLines_behind (hne : line ≠ []) (hnl : newline ∉ line)
    (hparse : parseSecret line = none) (hlen : line.length ≤ MAX_BYTES) :
    encodeLines listVault NETWORK (lines newline (keyText ++ line)) { vault := [] } =
      .ok { body := keyBody ++ line, puts := keyVault, vault := keyVault } := by
  have hlines : lines newline (keyText ++ line) = [(keyLine, true), (line, false)] := by
    have hsplit : keyText ++ line = keyLine ++ newline :: line := rfl
    rw [hsplit, lines_append (by decide), lines_of_notMem hnl hne]
  have hfirst : encodeLine listVault NETWORK { vault := [] } (keyLine, true) =
      .ok { body := keyBody, puts := keyVault, vault := keyVault } := rfl
  rw [hlines, encodeLines, hfirst]
  show encodeLines listVault NETWORK [(line, false)] _ = _
  rw [encodeLines, encodeLine]
  simp only [hparse, EncState.append]
  rw [bufAppend_of_le (by decide) hlen]
  rfl

theorem encode_behind (hlibs : libs.Lawful) {stream : List UInt8}
    (hne : line ≠ []) (hnl : newline ∉ line) (hat : 64 ∉ line) (hparse : parseSecret line = none)
    (hlen : (keyText ++ line).length ≤ MAX_BYTES)
    (hcomp : libs.compress (keyBody ++ line) = some stream) (hstream : stream.length ≤ MAX_BYTES) :
    encode libs listVault NETWORK (keyText ++ line) [] =
      ⟨.ok (header libs (keyText ++ line) (keyBody ++ line) ++ stream), keyVault, keyVault⟩ := by
  have hinput : ¬ (keyText ++ line = [] ∨ MAX_BYTES < (keyText ++ line).length ∨ NETWORK = []) := by
    rintro (h | h | h)
    · exact hne (append_eq_nil_iff.mp h).2
    · omega
    · cases h
  have hclean : search REF (keyText ++ line) = none := by
    have hat' : (64 : UInt8) ∉ keyText ++ line := by
      intro h
      rcases mem_append.mp h with h | h
      · exact absurd h (by decide)
      · exact hat h
    rw [← append_nil (keyText ++ line)]
    exact search_append_of_notMem hat' []
  rw [length_append] at hlen
  have hlens : keyText.length = 16 ∧ keyBody.length = 43 ∧ MAX_BYTES = 4194304 := by decide
  have hheader : (header libs (keyText ++ line) (keyBody ++ line)).length < 256 := by
    apply length_header_lt hlibs
    · rw [length_append]
      omega
    · rw [length_append]
      omega
  have hassemble : assemble libs (keyText ++ line) (keyBody ++ line) =
      some (header libs (keyText ++ line) (keyBody ++ line) ++ stream) := by
    revert hheader
    unfold assemble
    rw [hcomp]
    generalize header libs (keyText ++ line) (keyBody ++ line) = head
    intro hheader
    show (if 256 ≤ head.length then none else (bufAppend [] head).bind fun out =>
      bufAppend out stream) = _
    rw [if_neg (by omega), bufAppend_of_le (by decide) (by omega)]
    exact bufAppend_of_le (by rw [nil_append]; omega) hstream
  unfold encode
  rw [if_neg hinput, hclean, encodeLines_behind hne hnl hparse (by omega)]
  simp only [hassemble]
  rfl

/-- **A snapshot that cannot be restored.** The reference is longer than the secret, the input has the
    largest size, and the encoder does not look at the size of the body it has built. -/
theorem longText_refused : longLibs.Lawful ∧
    (encode longLibs listVault NETWORK longText []).result = .ok longSnapshot ∧
    (∀ p ∈ (encode longLibs listVault NETWORK longText []).puts,
      listVault.get (encode longLibs listVault NETWORK longText []).vault p.1 = some p.2) ∧
    decode longLibs listVault (encode longLibs listVault NETWORK longText []).vault
      longSnapshot = .refuse "snapshot_header_invalid" := by
  have hlawful : longLibs.Lawful := knownLibs_lawful rfl rfl
  have hcomp : longLibs.compress longBody = some longStream := by
    show some (if longBody = longBody then longStream else _) = _
    rw [if_pos rfl]
  have hstream : longStream.length ≤ MAX_BYTES := by
    rw [longStream, length_append, length_append, length_replicate]
    decide
  have hne : longLine ≠ [] := by
    intro h
    have hlen := length_longLine
    rw [h] at hlen
    cases hlen
  have hnotMem : ∀ b : UInt8, b ≠ 97 → b ∉ longLine := fun b hb h =>
    hb (eq_of_mem_replicate h)
  have hencode := encode_behind hlawful hne (hnotMem _ (by decide)) (hnotMem _ (by decide)) rfl
    length_longText.le hcomp hstream
  have hencode' : encode longLibs listVault NETWORK longText [] =
      ⟨.ok longSnapshot, keyVault, keyVault⟩ := hencode
  rw [hencode']
  refine ⟨hlawful, rfl, by decide, ?_⟩
  rw [longSnapshot, decode_snapshot longLibs hlawful, if_pos]
  refine .inr (.inr (.inr (.inl ?_)))
  rw [length_longBody]
  decide

end DreamingOS.Snapshot
