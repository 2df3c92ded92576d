import DreamingOS.V2.Automaton
import DreamingOS.V2.Transaction
import Mathlib.Data.Nat.Bitwise

namespace DreamingOS.V2

open Outcome List
open List (map_map mem_map)

/-!
# v2 rules — the scan is a naive search

* `occurrences` — naive search: every pattern is tried at every place;
* `scanWith_occurrences` — a scan visits each occurrence of each pattern once, and nothing else;
* `AcPattern.MatchesAt` — an occurrence that passes the filters of its rule;
* `Installed`, `installed_run` — the automaton of the active set is built from its literal rules;
* `scan_naive` — **the scan of an installed set returns a rule of least priority among those with an
  occurrence that passes**, and no match if there is none.
-/

/-! ### Occurrences -/

/-- A pattern, by its index, and the position of the last byte of a place where it occurs. -/
structure Occurrence where
  (index pos : ℕ)

/-- The patterns that end at a position. -/
def occurrencesAt (pats : List AcPattern) (payload : List UInt8) (pos : ℕ) : List Occurrence :=
  (pats.zipIdx.filter fun p => p.1.key <:+ payload.take (pos + 1)).map fun p => ⟨p.2, pos⟩

/-- Naive search: each pattern is compared with the bytes in front of each position. -/
def occurrences (pats : List AcPattern) (payload : List UInt8) : List Occurrence :=
  pats.zipIdx.flatMap fun p =>
    ((List.range payload.length).filter fun pos => p.1.key <:+ payload.take (pos + 1)).map fun pos =>
      ⟨p.2, pos⟩

/-- What a scan does at an occurrence. -/
def visitOccurrence {κ : Type} (pats : List AcPattern) (visit : Visit κ) (best : κ)
    (o : Occurrence) : κ :=
  visitAt pats visit o.pos best o.index

variable {pats : List AcPattern} {payload : List UInt8}
variable {o : Occurrence}

theorem mem_occurrences : o ∈ occurrences pats payload ↔
    ∃ p, pats[o.index]? = some p ∧ o.pos < payload.length ∧ p.key <:+ payload.take (o.pos + 1) := by
  unfold occurrences
  rw [mem_flatMap]
  constructor
  · rintro ⟨⟨p, i⟩, hp, ho⟩
    obtain ⟨pos, hpos, rfl⟩ := mem_map.mp ho
    obtain ⟨hlt, hsuffix⟩ := mem_filter.mp hpos
    exact ⟨p, mem_zipIdx_iff_getElem?.mp hp, mem_range.mp hlt, of_decide_eq_true hsuffix⟩
  · rintro ⟨p, hp, hlt, hsuffix⟩
    refine ⟨(p, o.index), mem_zipIdx_iff_getElem?.mpr hp, mem_map.mpr ⟨o.pos, ?_, rfl⟩⟩
    exact mem_filter.mpr ⟨mem_range.mpr hlt, decide_eq_true hsuffix⟩

theorem mem_occurrencesAt {pos : ℕ} : o ∈ occurrencesAt pats payload pos ↔
    o.pos = pos ∧ ∃ p, pats[o.index]? = some p ∧ p.key <:+ payload.take (pos + 1) := by
  unfold occurrencesAt
  rw [mem_map]
  constructor
  · rintro ⟨⟨p, i⟩, hp, rfl⟩
    obtain ⟨hp, hsuffix⟩ := mem_filter.mp hp
    exact ⟨rfl, p, mem_zipIdx_iff_getElem?.mp hp, of_decide_eq_true hsuffix⟩
  · rintro ⟨rfl, p, hp, hsuffix⟩
    exact ⟨(p, o.index), mem_filter.mpr ⟨mem_zipIdx_iff_getElem?.mpr hp,
      decide_eq_true hsuffix⟩, rfl⟩

/-- Indices are distinct, so no entry of a list of patterns is met twice. -/
theorem nodup_zipIdx_snd (pats : List AcPattern) : pats.zipIdx.Pairwise fun p q => p.2 ≠ q.2 := by
  rw [← pairwise_map (f := Prod.snd) (R := (· ≠ ·)), zipIdx_map_snd]
  exact nodup_range'

theorem nodup_occurrencesAt (pats : List AcPattern) (payload : List UInt8) (pos : ℕ) :
    (occurrencesAt pats payload pos).Nodup := by
  unfold occurrencesAt List.Nodup
  rw [pairwise_map]
  exact ((nodup_zipIdx_snd pats).filter _).imp fun hne heq => hne (congrArg Occurrence.index heq)

theorem nodup_occurrences (pats : List AcPattern) (payload : List UInt8) :
    (occurrences pats payload).Nodup := by
  unfold occurrences
  rw [nodup_flatMap]
  constructor
  · intro p _
    refine (nodup_range.filter _).map ?_
    exact fun a b heq => congrArg Occurrence.pos heq
  · refine (nodup_zipIdx_snd pats).imp fun hne o hp hq => ?_
    obtain ⟨i, -, rfl⟩ := mem_map.mp hp
    obtain ⟨j, -, heq⟩ := mem_map.mp hq
    exact hne (congrArg Occurrence.index heq).symm

/-- Searching position by position finds the same. -/
theorem occurrences_perm (pats : List AcPattern) (payload : List UInt8) :
    ((List.range payload.length).flatMap (occurrencesAt pats payload)).Perm
      (occurrences pats payload) := by
  have hnodup : ((List.range payload.length).flatMap (occurrencesAt pats payload)).Nodup := by
    rw [nodup_flatMap]
    refine ⟨fun pos _ => nodup_occurrencesAt pats payload pos, ?_⟩
    refine nodup_range.imp fun hne o hi hj => hne ?_
    rw [← (mem_occurrencesAt.mp hi).1, (mem_occurrencesAt.mp hj).1]
  rw [perm_ext_iff_of_nodup hnodup (nodup_occurrences pats payload)]
  intro o
  rw [mem_flatMap, mem_occurrences]
  constructor
  · rintro ⟨pos, hpos, ho⟩
    obtain ⟨rfl, p, hp, hsuffix⟩ := mem_occurrencesAt.mp ho
    exact ⟨p, hp, mem_range.mp hpos, hsuffix⟩
  · rintro ⟨p, hp, hlt, hsuffix⟩
    exact ⟨o.pos, mem_range.mpr hlt, mem_occurrencesAt.mpr ⟨rfl, p, hp, hsuffix⟩⟩

/-! ### What a build produces -/

theorem AcPattern.length_key (p : AcPattern) : p.key.length = p.matchLen := by
  rw [AcPattern.key, length_map, length_range]

theorem countNodes_pos {ps : List AcPattern} {maxNodes n : ℕ} (h : countNodes maxNodes ps = .ok n) :
    ∀ p ∈ ps, 0 < p.matchLen := by
  induction ps generalizing maxNodes with
  | nil => exact fun _ hp => absurd hp not_mem_nil
  | cons p ps ih =>
    rw [countNodes] at h
    split at h
    · cases h
    rename_i hzero
    split at h
    · cases h
    intro q hq
    obtain rfl | hq := mem_cons.mp hq
    · exact Nat.pos_of_ne_zero hzero
    · exact ih h q hq

/-- A successful build flattens a machine for the patterns. -/
theorem acBuild_machine {alloc : AcAlloc} {ac : Ac} (h : acBuild alloc pats = .ok ac) :
    ∃ t word, ac = acOfTrie t pats ∧ AhoCorasick.IsMachine t word (acEntries pats) ∧
      ∀ p ∈ pats, 0 < p.matchLen := by
  unfold acBuild at h
  split at h
  · cases h
  split at h
  · cases h
  rename_i maxNodes hcount
  split at h
  · cases h
  split at h
  · cases h
  rename_i t hins
  split at h
  · cases h
  cases h
  have hpos := countNodes_pos hcount
  obtain ⟨word, hholds⟩ := AhoCorasick.holds_empty.insertAll hins
  rw [nil_append] at hholds
  refine ⟨_, word, rfl, hholds.link ?_, hpos⟩
  intro e he
  obtain ⟨⟨p, i⟩, hp, rfl⟩ := mem_map.mp he
  have hmem : p ∈ pats := mem_of_getElem? (mem_zipIdx_iff_getElem?.mp hp)
  refine ne_nil_of_length_pos ?_
  rw [p.length_key]
  exact hpos p hmem

/-! ### The visits of a scan -/

section Machine

variable {t : AhoCorasick.Trie UInt8 ℕ} {word : ℕ → List UInt8}

theorem inRange_machine (h : AhoCorasick.IsMachine t word (acEntries pats)) : InRange t pats := by
  intro j hj i hi
  rw [h.outputs j hj, mem_reverse] at hi
  obtain ⟨e, he, rfl⟩ := mem_map.mp hi
  obtain ⟨⟨p, i⟩, hp, rfl⟩ := mem_map.mp (mem_filter.mp he).1
  exact (List.getElem?_eq_some_iff.mp (mem_zipIdx_iff_getElem?.mp hp)).1

/-- The outputs at a node are those of the patterns that end at the position. -/
theorem visits_perm (h : AhoCorasick.IsMachine t word (acEntries pats)) {pos s : ℕ}
    (hs : AhoCorasick.IsLongest t word (payload.take (pos + 1)) s) :
    ((AhoCorasick.chainOutputs t s).map fun i => (⟨i, pos⟩ : Occurrence)).Perm
      (occurrencesAt pats payload pos) := by
  refine ((h.chainOutputs_perm hs).map _).trans (Perm.of_eq ?_)
  unfold occurrencesAt acEntries
  rw [List.filter_map, map_map, map_map]
  rfl

/-- The rest of a scan visits what ends at the positions of the rest. -/
theorem scanFrom_visits (h : AhoCorasick.IsMachine t word (acEntries pats)) {rest pre : List UInt8}
    (hpre : pre ++ rest = payload) {s : ℕ} (hs : AhoCorasick.IsLongest t word pre s) :
    ∃ seen : List Occurrence,
      seen.Perm ((List.range' pre.length rest.length).flatMap (occurrencesAt pats payload)) ∧
      ∀ {κ : Type} (visit : Visit κ) (best : κ),
        scanFrom (acOfTrie t pats) visit rest pre.length s best =
          .ok (seen.foldl (visitOccurrence pats visit) best) := by
  induction rest generalizing pre s with
  | nil => exact ⟨[], List.Perm.refl _, fun _ _ => rfl⟩
  | cons b rest ih =>
    have hcand := AhoCorasick.Candidate.of_isLongest (b := b) h.trie hs
    have hsize : (acOfTrie t pats).nodes.size = t.size := Array.size_map
    have hfuel : (word s).length < (acOfTrie t pats).nodes.size + 1 := by
      rw [hsize]
      exact Nat.lt_succ_of_le ((h.trie.length_word_le s hs.lt).trans hs.lt.le)
    obtain ⟨next, hwalk, hnext⟩ := acWalk_ok h hcand hfuel
    have htake : payload.take (pre.length + 1) = pre ++ [b] := by
      rw [← hpre, append_cons, take_left' (by rw [length_append, length_singleton])]
    obtain ⟨seen, hperm, hscan⟩ := ih (by rw [← hpre, append_assoc]; rfl) hnext
    rw [length_append, length_singleton] at hperm hscan
    refine ⟨(AhoCorasick.chainOutputs t next).map (fun i => ⟨i, pre.length⟩) ++ seen, ?_, ?_⟩
    · rw [length_cons, range'_succ, flatMap_cons]
      exact (visits_perm h (htake ▸ hnext)).append hperm
    · intro κ visit best
      rw [scanFrom, hwalk, ok_bind, hsize, emitState_eq h (inRange_machine h) visit _ hnext.lt,
        ok_bind, hscan visit, foldl_append, foldl_map]
      rfl

end Machine

/-- **The visits.**  A scan of a built automaton ends, and whatever it does at an output it does
    once for every occurrence that a naive search finds, and for nothing else. -/
theorem scanWith_occurrences {alloc : AcAlloc} {ac : Ac} (hbuild : acBuild alloc pats = .ok ac)
    (payload : List UInt8) :
    ∃ seen : List Occurrence, seen.Perm (occurrences pats payload) ∧
      ∀ {κ : Type} (visit : Visit κ) (best : κ),
        scanWith ac visit payload best = .ok (seen.foldl (visitOccurrence pats visit) best) := by
  obtain ⟨t, word, rfl, hm, -⟩ := acBuild_machine hbuild
  have hroot : AhoCorasick.IsLongest t word [] 0 := by
    refine ⟨hm.trie.pos, by rw [hm.trie.root], fun i _ hs => ?_⟩
    rw [suffix_nil.mp hs]
    exact Nat.zero_le _
  obtain ⟨seen, hperm, hscan⟩ := scanFrom_visits hm (nil_append payload) hroot
  refine ⟨seen, ?_, fun visit best => hscan visit best⟩
  rw [length_nil, ← range_eq_range'] at hperm
  exact hperm.trans (occurrences_perm pats payload)

/-! ### Filters -/

/-- A rule's pattern occurs in the payload, behind `pre` and in front of `post`, and the rule's
    filters let it pass. -/
structure AcPattern.MatchesAt (p : AcPattern) (pkt : Packet) (payload pre post : List UInt8) :
    Prop where
  occurs : payload = pre ++ p.key ++ post
  proto : p.proto = 0 ∨ p.proto &&& pkt.proto ≠ 0
  dir : p.dir = 0 ∨ p.dir = pkt.dir
  whole : p.method = JMX_V2_MATCH_EXACT → pre = [] ∧ post = []
  offset : 0 ≤ p.offset → (pre.length : ℤ) = p.offset
  pktSeq : p.pktSeq = 0 ∨
    1 ≤ pkt.pktSeq ∧ pkt.pktSeq ≤ 32 ∧ p.pktSeq.testBit (pkt.pktSeq - 1) = true
  port : p.portCount = 0 ∨ ∃ m < p.portCount,
    (p.ports.getD m ⟨0, 0⟩).minPort ≤ pkt.dport ∧ pkt.dport ≤ (p.ports.getD m ⟨0, 0⟩).maxPort
  len : p.lenCount = 0 ∨ ∃ m < p.lenCount,
    (p.lens.getD m ⟨0, 0⟩).minLen ≤ payload.length ∧ payload.length ≤ (p.lens.getD m ⟨0, 0⟩).maxLen

/-- Some occurrence passes. -/
def AcPattern.Matches (p : AcPattern) (pkt : Packet) (payload : List UInt8) : Prop :=
  ∃ pre post, p.MatchesAt pkt payload pre post

theorem portMatched_iff (p : AcPattern) (dport : ℕ) : p.portMatched dport = true ↔
    ∃ m < p.portCount, (p.ports.getD m ⟨0, 0⟩).minPort ≤ dport ∧
      dport ≤ (p.ports.getD m ⟨0, 0⟩).maxPort := by
  simp only [AcPattern.portMatched, List.any_eq_true, mem_range, Bool.and_eq_true,
    decide_eq_true_eq]

theorem lenMatched_iff (p : AcPattern) (len : ℕ) : p.lenMatched len = true ↔
    ∃ m < p.lenCount, (p.lens.getD m ⟨0, 0⟩).minLen ≤ len ∧
      len ≤ (p.lens.getD m ⟨0, 0⟩).maxLen := by
  simp only [AcPattern.lenMatched, List.any_eq_true, mem_range, Bool.and_eq_true, decide_eq_true_eq]

/-- A mask shares a single bit with a number. -/
theorem and_shift_eq_zero (n k : ℕ) : n &&& (1 <<< k) = 0 ↔ n.testBit k = false := by
  rw [Nat.one_shiftLeft, Nat.and_two_pow]
  cases n.testBit k with
  | false => simp
  | true => simp

variable {p : AcPattern} {pkt : Packet}

/-- The tests of `emit_node` say no more and no less than the filters of the rule. -/
theorem matchesAt_iff {payload pre post : List UInt8}
    (hoccurs : payload = pre ++ p.key ++ post) : p.MatchesAt pkt payload pre post ↔
      ¬ (p.proto ≠ 0 ∧ p.proto &&& pkt.proto = 0) ∧ ¬ (p.dir ≠ 0 ∧ p.dir ≠ pkt.dir) ∧
      ¬ (p.method = 0 ∧ p.matchLen ≠ payload.length) ∧
      ¬ (0 ≤ p.offset ∧ pre.length ≠ p.offset.toNat) ∧
      ¬ (p.pktSeq ≠ 0 ∧ (pkt.pktSeq = 0 ∨ 32 < pkt.pktSeq ∨
        p.pktSeq &&& (1 <<< (pkt.pktSeq - 1)) = 0)) ∧
      ¬ (0 < p.portCount ∧ p.portMatched pkt.dport = false) ∧
      ¬ (0 < p.lenCount ∧ p.lenMatched payload.length = false) := by
  have hwhole : (pre = [] ∧ post = []) ↔ p.matchLen = payload.length := by
    rw [hoccurs, length_append, length_append, p.length_key, ← length_eq_zero_iff,
      ← length_eq_zero_iff]
    omega
  have hport := portMatched_iff p pkt.dport
  have hlen := lenMatched_iff p payload.length
  have hbit := and_shift_eq_zero p.pktSeq (pkt.pktSeq - 1)
  constructor
  · intro h
    refine ⟨?_, ?_, ?_, ?_, ?_, ?_, ?_⟩
    · rintro ⟨hany, hnone⟩
      exact h.proto.elim hany fun hshared => hshared hnone
    · rintro ⟨hany, hne⟩
      exact h.dir.elim hany hne
    · rintro ⟨hmethod, hne⟩
      exact hne (hwhole.mp (h.whole hmethod))
    · rintro ⟨hoffset, hne⟩
      have := h.offset hoffset
      omega
    · rintro ⟨hmask, hseq⟩
      rw [hbit] at hseq
      obtain hzero | ⟨hlow, hhigh, hset⟩ := h.pktSeq
      · exact hmask hzero
      · rw [hset] at hseq
        simp only [Bool.true_eq_false, or_false] at hseq
        omega
    · rintro ⟨hcount, hnone⟩
      obtain hzero | hmatched := h.port
      · omega
      · rw [hport.mpr hmatched] at hnone
        cases hnone
    · rintro ⟨hcount, hnone⟩
      obtain hzero | hmatched := h.len
      · omega
      · rw [hlen.mpr hmatched] at hnone
        cases hnone
  · rintro ⟨hproto, hdir, hexact, hoffset, hseq, hports, hlens⟩
    refine ⟨hoccurs, ?_, ?_, ?_, ?_, ?_, ?_, ?_⟩
    · exact or_iff_not_imp_left.mpr fun hany hnone => hproto ⟨hany, hnone⟩
    · exact or_iff_not_imp_left.mpr fun hany => not_not.mp fun hne => hdir ⟨hany, hne⟩
    · intro hmethod
      exact hwhole.mpr (not_not.mp fun hne => hexact ⟨hmethod, hne⟩)
    · intro hnonneg
      have : pre.length = p.offset.toNat := not_not.mp fun hne => hoffset ⟨hnonneg, hne⟩
      omega
    · rw [hbit] at hseq
      by_cases hmask : p.pktSeq = 0
      · exact Or.inl hmask
      refine Or.inr ⟨?_, ?_, ?_⟩
      · exact Nat.pos_of_ne_zero fun hzero => hseq ⟨hmask, .inl hzero⟩
      · exact not_lt.mp fun hhigh => hseq ⟨hmask, .inr (.inl hhigh)⟩
      · rw [← Bool.not_eq_false]
        exact fun hset => hseq ⟨hmask, .inr (.inr hset)⟩
    · by_cases hcount : p.portCount = 0
      · exact Or.inl hcount
      refine Or.inr (hport.mp ?_)
      rw [← Bool.not_eq_false]
      exact fun hnone => hports ⟨Nat.pos_of_ne_zero hcount, hnone⟩
    · by_cases hcount : p.lenCount = 0
      · exact Or.inl hcount
      refine Or.inr (hlen.mp ?_)
      rw [← Bool.not_eq_false]
      exact fun hnone => hlens ⟨Nat.pos_of_ne_zero hcount, hnone⟩

/-- At an occurrence that passes, the better priority is kept; any other one changes nothing. -/
theorem emitOutput_eq {payload pre post : List UInt8} {pos : ℕ}
    (hoccurs : payload = pre ++ p.key ++ post) (hpos : pos + 1 = pre.length + p.matchLen)
    (best : Best) (i : ℕ) :
    (p.MatchesAt pkt payload pre post → emitOutput pkt payload.length best i p pos =
      if p.priority < best.priority then ⟨p.appid, p.priority⟩ else best) ∧
    (¬ p.MatchesAt pkt payload pre post → emitOutput pkt payload.length best i p pos = best) := by
  have hshort : ¬ pos + 1 < p.matchLen := by omega
  have hstart : pos + 1 - p.matchLen = pre.length := by omega
  rw [matchesAt_iff hoccurs]
  unfold emitOutput
  rw [if_neg hshort, hstart]
  constructor
  · rintro ⟨hproto, hdir, hexact, hoffset, hseq, hports, hlens⟩
    rw [if_neg hproto, if_neg hdir, if_neg hexact, if_neg hoffset, if_neg hseq, if_neg hports,
      if_neg hlens]
  · intro hnot
    by_cases hproto : p.proto ≠ 0 ∧ p.proto &&& pkt.proto = 0
    · exact if_pos hproto
    rw [if_neg hproto]
    by_cases hdir : p.dir ≠ 0 ∧ p.dir ≠ pkt.dir
    · exact if_pos hdir
    rw [if_neg hdir]
    by_cases hexact : p.method = 0 ∧ p.matchLen ≠ payload.length
    · exact if_pos hexact
    rw [if_neg hexact]
    by_cases hoffset : 0 ≤ p.offset ∧ pre.length ≠ p.offset.toNat
    · exact if_pos hoffset
    rw [if_neg hoffset]
    by_cases hseq : p.pktSeq ≠ 0 ∧ (pkt.pktSeq = 0 ∨ 32 < pkt.pktSeq ∨
        p.pktSeq &&& (1 <<< (pkt.pktSeq - 1)) = 0)
    · exact if_pos hseq
    rw [if_neg hseq]
    by_cases hports : 0 < p.portCount ∧ p.portMatched pkt.dport = false
    · exact if_pos hports
    rw [if_neg hports]
    by_cases hlens : 0 < p.lenCount ∧ p.lenMatched payload.length = false
    · exact if_pos hlens
    exact absurd ⟨hproto, hdir, hexact, hoffset, hseq, hports, hlens⟩ hnot

/-! ### The best rule -/

/-- The best of the patterns with `P`, as far as one has a priority below the greatest value. -/
structure Best.LeastOf (best : Best) (P : AcPattern → Prop) : Prop where
  found : best = {} ∨ ∃ p, P p ∧ p.priority < U32_MAX ∧ best = ⟨p.appid, p.priority⟩
  least : ∀ p, P p → best.priority ≤ p.priority

variable {best : Best}

/-- Priorities only become better. -/
theorem Best.LeastOf.le_max {P : AcPattern → Prop} (h : best.LeastOf P) :
    best.priority ≤ U32_MAX := by
  obtain rfl | ⟨p, -, hlt, rfl⟩ := h.found
  · exact le_refl _
  · exact hlt.le

/-- One more pattern. -/
theorem Best.LeastOf.insert {P Q : AcPattern → Prop} (h : best.LeastOf P)
    (hmono : ∀ q, P q → Q q) (hp : Q p) (hnew : ∀ q, Q q → P q ∨ q = p) :
    (if p.priority < best.priority then (⟨p.appid, p.priority⟩ : Best) else best).LeastOf Q := by
  by_cases hbetter : p.priority < best.priority
  · rw [if_pos hbetter]
    refine ⟨.inr ⟨p, hp, hbetter.trans_le h.le_max, rfl⟩, fun q hq => ?_⟩
    obtain hold | rfl := hnew q hq
    · exact hbetter.le.trans (h.least q hold)
    · exact le_refl _
  · rw [if_neg hbetter]
    refine ⟨?_, fun q hq => ?_⟩
    · obtain hnone | ⟨q, hq, hlt, heq⟩ := h.found
      · exact Or.inl hnone
      · exact Or.inr ⟨q, hmono q hq, hlt, heq⟩
    · obtain hold | rfl := hnew q hq
      · exact h.least q hold
      · exact not_lt.mp hbetter

/-- The pattern of an occurrence that passes. -/
def PassesAt (pats : List AcPattern) (pkt : Packet) (payload : List UInt8) (o : Occurrence)
    (p : AcPattern) : Prop :=
  pats[o.index]? = some p ∧ ∃ pre post, p.MatchesAt pkt payload pre post ∧
    o.pos + 1 = pre.length + p.matchLen

/-- One visit. -/
theorem visit_least (pkt : Packet) (ho : o ∈ occurrences pats payload)
    {P : AcPattern → Prop} (h : best.LeastOf P) :
    (visitOccurrence pats (emitOutput pkt payload.length) best o).LeastOf fun p =>
      P p ∨ PassesAt pats pkt payload o p := by
  obtain ⟨p, hp, hlt, pre, hpre⟩ := mem_occurrences.mp ho
  have hoccurs : payload = pre ++ p.key ++ payload.drop (o.pos + 1) := by
    rw [hpre, take_append_drop]
  have hpos : o.pos + 1 = pre.length + p.matchLen := by
    have hlength := congrArg List.length hpre
    rw [length_append, p.length_key, length_take] at hlength
    omega
  have hvisit : visitOccurrence pats (emitOutput pkt payload.length) best o =
      emitOutput pkt payload.length best o.index p o.pos := by
    unfold visitOccurrence visitAt
    rw [hp]
  obtain ⟨hpasses, hfails⟩ := emitOutput_eq hoccurs hpos best o.index
  rw [hvisit]
  by_cases hmatch : p.MatchesAt pkt payload pre (payload.drop (o.pos + 1))
  · rw [hpasses hmatch]
    refine h.insert (fun q hq => .inl hq) (.inr ⟨hp, _, _, hmatch, hpos⟩) fun q hq => ?_
    obtain hold | ⟨hq, -⟩ := hq
    · exact Or.inl hold
    · exact Or.inr (Option.some.inj (hq.symm.trans hp))
  · -- the place where the pattern ends determines where it begins
    have hnone : ∀ q, ¬ PassesAt pats pkt payload o q := by
      rintro q ⟨hq, pre', post', hq', hpos'⟩
      obtain rfl : q = p := Option.some.inj (hq.symm.trans hp)
      have hlength : pre'.length = pre.length := by omega
      have hsplit := hq'.occurs
      rw [hoccurs, append_assoc, append_assoc] at hsplit
      obtain ⟨rfl, hrest⟩ := append_inj hsplit hlength.symm
      obtain ⟨-, hpost⟩ := append_inj hrest rfl
      exact hmatch (hpost ▸ hq')
    rw [hfails hmatch]
    refine ⟨?_, fun q hq => h.least q (hq.resolve_right (hnone q))⟩
    obtain hempty | ⟨q, hq, hlt, heq⟩ := h.found
    · exact Or.inl hempty
    · exact Or.inr ⟨q, .inl hq, hlt, heq⟩

/-- The run lemma: after the visits, the best rule of those that pass. -/
theorem visits_least (pkt : Packet) {seen : List Occurrence}
    (hseen : ∀ o ∈ seen, o ∈ occurrences pats payload) :
    (seen.foldl (visitOccurrence pats (emitOutput pkt payload.length)) {}).LeastOf fun p =>
      ∃ o ∈ seen, PassesAt pats pkt payload o p := by
  induction seen using List.reverseRecOn with
  | nil => exact ⟨.inl rfl, fun p ⟨o, ho, _⟩ => absurd ho not_mem_nil⟩
  | append_singleton seen o ih =>
    rw [foldl_append, foldl_cons, foldl_nil]
    have hstep := visit_least pkt (hseen o mem_concat_self)
      (ih fun o' ho' => hseen o' (mem_append_left _ ho'))
    refine ⟨?_, fun p hp => hstep.least p ?_⟩
    · obtain hempty | ⟨p, hp, hlt, heq⟩ := hstep.found
      · exact Or.inl hempty
      · refine Or.inr ⟨p, ?_, hlt, heq⟩
        obtain ⟨o', ho', hp⟩ | hp := hp
        · exact ⟨o', mem_append_left _ ho', hp⟩
        · exact ⟨o, mem_concat_self, hp⟩
    · obtain ⟨o', ho', hp⟩ := hp
      obtain ho' | ho' := mem_append.mp ho'
      · exact Or.inl ⟨o', ho', hp⟩
      · exact Or.inr (mem_singleton.mp ho' ▸ hp)

/-! ### The installed set -/

/-- A rule the automaton searches for. -/
def Rule.Searched (r : Rule) : Prop := r.Literal ∧ r.matchLen ≠ 0

instance (r : Rule) : Decidable r.Searched := inferInstanceAs (Decidable (_ ∧ _))

/-- The patterns of the rules that are searched for. -/
def RuleSet.searched {Ac : Type} (s : RuleSet Ac) : List AcPattern :=
  (s.nodes.filter fun r => r.Literal ∧ r.matchLen ≠ 0).map Rule.pattern

/-- The event's automaton comes from `jmx_v2_ac_build`. -/
def Event.Builds : Event Ac → Prop
  | .op env _ _ => ∃ alloc, env.acBuild = acBuild alloc
  | .tick _ => True

/-- The automaton of the active set is built from it; without one there is nothing to search for,
    as far as the number of its rules fits a counter. -/
structure Installed (s : RuleSet Ac) : Prop where
  built : ∀ ac, s.ac = some ac → ∃ alloc, acBuild alloc s.searched = .ok ac
  none : s.ac = none → s.nodes.length < 4294967296 → ∀ r ∈ s.nodes, ¬ r.Searched

theorem installed_buildAc {env : Env Ac} (henv : ∃ alloc, env.acBuild = acBuild alloc)
    {s : RuleSet Ac} {ac : Option Ac} (hac : buildAc env s = .ok ac) (version : ℕ) :
    Installed { s with ac := ac, version := version } := by
  obtain ⟨alloc, henv⟩ := henv
  unfold buildAc at hac
  dsimp only at hac
  by_cases hnone : s.nodes.countP (fun r => decide (r.Literal ∧ r.matchLen ≠ 0)) % 4294967296 = 0
  · rw [if_pos hnone] at hac
    cases hac
    refine ⟨nofun, fun _ hlen r hr hsearched => ?_⟩
    have hle : s.nodes.countP (fun r => decide (r.Literal ∧ r.matchLen ≠ 0)) ≤ s.nodes.length :=
      countP_le_length
    have hpos : 0 < s.nodes.countP (fun r => decide (r.Literal ∧ r.matchLen ≠ 0)) :=
      countP_pos_iff.mpr ⟨r, hr, decide_eq_true hsearched⟩
    have hlt : s.nodes.length < 4294967296 := hlen
    omega
  · rw [if_neg hnone] at hac
    split at hac
    · cases hac
    split at hac
    · cases hac
    rw [henv] at hac
    cases hbuilt : acBuild alloc s.searched with
    | error e =>
      have hfail : Except.map some (acBuild alloc s.searched) = .ok ac := hac
      rw [hbuilt] at hfail
      cases hfail
    | ok built =>
      have hsome : Except.map some (acBuild alloc s.searched) = .ok ac := hac
      rw [hbuilt] at hsome
      cases hsome
      refine ⟨?_, nofun⟩
      rintro _ ⟨⟩
      exact ⟨alloc, hbuilt⟩

/-- The step lemma: only a commit replaces the active set, and it installs what it has built. -/
theorem installed_step {hashAppid : ℕ → Fin 256} {st : KState Ac} (h : Installed st.active)
    {e : Event Ac} (he : e.Builds) : Installed (step hashAppid st e).1.active := by
  generalize hst' : (step hashAppid st e).1 = st'
  generalize hrc : (step hashAppid st e).2 = rc
  have heffect : Effect hashAppid st e st' rc := by
    rw [← hst', ← hrc]
    exact step_effect st e
  cases heffect with
  | refused => exact h
  | lapsed => exact h
  | began => exact h
  | added => exact h
  | discarded => exact h
  | committed env portid version ac hlive hsound hac => exact installed_buildAc he hac version

/-- The run lemma. -/
theorem installed_run {hashAppid : ℕ → Fin 256} {es : List (Event Ac)}
    (hes : ∀ e ∈ es, e.Builds) : Installed (run hashAppid {} es).active := by
  induction es using List.reverseRecOn with
  | nil =>
    refine ⟨nofun, fun _ _ r hr => ?_⟩
    obtain ⟨b, -, hb⟩ := mem_flatMap.mp hr
    cases hb
  | append_singleton es e ih =>
    rw [run_append]
    exact installed_step (ih fun e' he' => hes e' (mem_append_left _ he'))
      (hes e mem_concat_self)

/-- What a scan of a rule set may answer: the application and the priority of a rule that passes
    somewhere, and none that passes is better; or no match, when none passes.  A rule with the
    greatest priority value is never the answer. -/
structure Answers {Ac : Type} (s : RuleSet Ac) (pkt : Packet) (payload : List UInt8) (best : Best) :
    Prop where
  found : best ≠ {} → ∃ r ∈ s.nodes, r.Searched ∧ r.pattern.Matches pkt payload ∧
    r.priority < U32_MAX ∧ best = ⟨r.appid, r.priority⟩
  least : ∀ r ∈ s.nodes, r.Searched → r.pattern.Matches pkt payload → best.priority ≤ r.priority
  noMatch : best = {} ↔ ∀ r ∈ s.nodes, r.Searched → r.priority < U32_MAX →
    ¬ r.pattern.Matches pkt payload

theorem mem_searched {Ac : Type} {s : RuleSet Ac} :
    p ∈ s.searched ↔ ∃ r ∈ s.nodes, r.Searched ∧ r.pattern = p := by
  unfold RuleSet.searched
  rw [mem_map]
  constructor
  · rintro ⟨r, hr, rfl⟩
    obtain ⟨hr, hsearched⟩ := mem_filter.mp hr
    exact ⟨r, hr, of_decide_eq_true hsearched, rfl⟩
  · rintro ⟨r, hr, hsearched, rfl⟩
    exact ⟨r, mem_filter.mpr ⟨hr, decide_eq_true hsearched⟩, rfl⟩

/-- A pattern matches just when one of its occurrences passes. -/
theorem passes_iff (hpos : ∀ p ∈ pats, 0 < p.matchLen) {seen : List Occurrence}
    (hseen : seen.Perm (occurrences pats payload)) (p : AcPattern) :
    (∃ o ∈ seen, PassesAt pats pkt payload o p) ↔ p ∈ pats ∧ p.Matches pkt payload := by
  constructor
  · rintro ⟨o, -, hp, pre, post, hmatch, -⟩
    exact ⟨mem_of_getElem? hp, pre, post, hmatch⟩
  · rintro ⟨hp, pre, post, hmatch⟩
    obtain ⟨i, hi⟩ := mem_iff_getElem?.mp hp
    have hlen := hpos p hp
    have hend : pre.length + p.matchLen - 1 + 1 = pre.length + p.matchLen := by omega
    have htotal := congrArg List.length hmatch.occurs
    rw [length_append, length_append, p.length_key] at htotal
    have htake : payload.take (pre.length + p.matchLen) = pre ++ p.key := by
      rw [hmatch.occurs, take_left' (by rw [length_append, p.length_key])]
    refine ⟨⟨i, pre.length + p.matchLen - 1⟩, hseen.mem_iff.mpr (mem_occurrences.mpr ?_), hi, pre,
      post, hmatch, hend⟩
    refine ⟨p, hi, show pre.length + p.matchLen - 1 < payload.length by omega, ?_⟩
    show p.key <:+ payload.take (pre.length + p.matchLen - 1 + 1)
    rw [hend, htake]
    exact suffix_append pre p.key

/-- **The scan of an installed set is a naive search.**  In every state that the operations lead to,
    for every payload and packet: the scan of the active set ends, visits each occurrence of each
    searched pattern exactly once and nothing else, and returns the application and the priority of
    a rule that is the best of all that pass at some occurrence; no match just when none passes.  A
    set without an automaton has nothing to search for. -/
theorem scan_naive {hashAppid : ℕ → Fin 256} {es : List (Event Ac)} (hes : ∀ e ∈ es, e.Builds)
    (payload : List UInt8) (pkt : Packet) :
    (∀ ac, (run hashAppid {} es).active.ac = some ac →
      (∃ seen : List Occurrence, seen.Perm (occurrences (run hashAppid {} es).active.searched payload) ∧
        ∀ {κ : Type} (visit : Visit κ) (best : κ), scanWith ac visit payload best =
          .ok (seen.foldl (visitOccurrence (run hashAppid {} es).active.searched visit) best)) ∧
      ∃ best, acScan ac payload pkt = .ok best ∧
        Answers (run hashAppid {} es).active pkt payload best) ∧
    ((run hashAppid {} es).active.ac = none →
      (run hashAppid {} es).active.nodes.length < 4294967296 →
      ∀ r ∈ (run hashAppid {} es).active.nodes, ¬ r.Searched) := by
  have hinstalled : Installed (run hashAppid {} es).active := installed_run hes
  refine ⟨fun ac hac => ?_, hinstalled.none⟩
  generalize (run hashAppid {} es).active = s at hinstalled hac
  obtain ⟨alloc, hbuilt⟩ := hinstalled.built ac hac
  obtain ⟨-, -, -, -, hpos⟩ := acBuild_machine hbuilt
  obtain ⟨seen, hperm, hscan⟩ := scanWith_occurrences hbuilt payload
  refine ⟨⟨seen, hperm, hscan⟩, _, hscan _ _, ?_⟩
  have hleast := visits_least pkt fun o ho => hperm.mem_iff.mp ho
  generalize seen.foldl (visitOccurrence s.searched (emitOutput pkt payload.length)) {} = best at hleast
  have hfound : best ≠ {} → ∃ r ∈ s.nodes, r.Searched ∧ r.pattern.Matches pkt payload ∧
      r.priority < U32_MAX ∧ best = ⟨r.appid, r.priority⟩ := by
    intro hne
    obtain ⟨p, hp, hlt, heq⟩ := hleast.found.resolve_left hne
    obtain ⟨hmem, hmatch⟩ := (passes_iff hpos hperm p).mp hp
    obtain ⟨r, hr, hsearched, rfl⟩ := mem_searched.mp hmem
    exact ⟨r, hr, hsearched, hmatch, hlt, heq⟩
  have hbest : ∀ r ∈ s.nodes, r.Searched → r.pattern.Matches pkt payload →
      best.priority ≤ r.priority := by
    intro r hr hsearched hmatch
    exact hleast.least r.pattern
      ((passes_iff hpos hperm _).mpr ⟨mem_searched.mpr ⟨r, hr, hsearched, rfl⟩, hmatch⟩)
  refine ⟨hfound, hbest, ?_, ?_⟩
  · rintro rfl r hr hsearched hlt hmatch
    exact absurd (hbest r hr hsearched hmatch) (not_le.mpr hlt)
  · intro hnone
    by_contra hne
    obtain ⟨r, hr, hsearched, hmatch, hlt, -⟩ := hfound hne
    exact hnone r hr hsearched hlt hmatch

/-! ### A pattern that ends another one -/

/-- Allocations and clock are in order, and the automaton is the code's. -/
def building : Env Ac := { now := 0, renew := 0, acBuild := acBuild {} }

/-- A rule for a literal anywhere in the payload. -/
def literalRule (appid priority : ℕ) (literal : List UInt8) : Rule where
  appid := appid
  ruleId := 0
  priority := priority
  method := JMX_V2_MATCH_BM_STR
  proto := 0
  dir := 0
  portCount := 0
  lenCount := 0
  pktSeq := 0
  offset := -1
  matchLen := literal.length
  matchStr := literal
  ports := []
  lenRange := []

/-- A port installs a literal and a suffix of it with a better priority. -/
def suffixRules : List (Event Ac) :=
  [.op building 9 .begin, .op building 9 (.add (some (literalRule 1 20 [0x61, 0x62]))),
    .op building 9 (.add (some (literalRule 2 10 [0x62]))), .op building 9 (.commit 1)]

theorem scan_naive_suffix : ∃ ac best, (run (fun _ => 0) {} suffixRules).active.ac = some ac ∧
    acScan ac [0x61, 0x62] ⟨1, 1, 443, 1⟩ = .ok best ∧
    Answers (run (fun _ => 0) {} suffixRules).active ⟨1, 1, 443, 1⟩ [0x61, 0x62] best := by
  have hes : ∀ e ∈ suffixRules, e.Builds := by
    intro e he
    simp only [suffixRules, mem_cons, not_mem_nil, or_false] at he
    obtain rfl | rfl | rfl | rfl := he <;> exact ⟨{}, rfl⟩
  have hsome : (run (fun _ => 0) {} suffixRules).active.ac.isSome = true := by decide +kernel
  obtain ⟨ac, hac⟩ := Option.isSome_iff_exists.mp hsome
  obtain ⟨-, best, hscan, hanswers⟩ := (scan_naive hes [0x61, 0x62] ⟨1, 1, 443, 1⟩).1 ac hac
  exact ⟨ac, best, hac, hscan, hanswers⟩

end DreamingOS.V2
