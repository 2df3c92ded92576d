import Mathlib.Algebra.Group.Nat.Defs
import Mathlib.Data.List.Chain
import Mathlib.Data.List.Nodup
import Mathlib.Data.List.Perm.Subperm

/-!
# Cidr — lists of prefixes with as few members as their addresses need

* `Block κ`: the numbers that agree above their `bits` low bits, under a key.  Two blocks are nested
  or have nothing in common (`Block.nested`).
* `settle`, `aggregate`: a stack of blocks onto which each next block is pushed, and on which the top
  two are replaced by their parent as long as they are its two halves.
* `covers_aggregate`, `aggregate_canonical`: aggregating an ordered list keeps what it covers, and
  leaves no two halves of one block.
* `Canonical.length_le`: an ordered list without two halves of one block is a shortest list of
  blocks for the numbers it covers.
-/

namespace Cidr

open List

variable {κ : Type*}

/-- The numbers whose bits above the low `bits` ones are `head`, under a key. -/
structure Block (κ : Type*) where
  key : κ
  (head bits : ℕ)

namespace Block

/-- The first number of a block. -/
def start (b : Block κ) : ℕ := b.head * 2 ^ b.bits

/-- The number after the last one. -/
def stop (b : Block κ) : ℕ := (b.head + 1) * 2 ^ b.bits

def Covers (b : Block κ) (k : κ) (a : ℕ) : Prop := b.key = k ∧ a / 2 ^ b.bits = b.head

/-- Some number is in both blocks. -/
def Overlap (b c : Block κ) : Prop := ∃ k a, b.Covers k a ∧ c.Covers k a

/-- The block that `b` is a half of. -/
def parent (b : Block κ) : Block κ := ⟨b.key, b.head / 2, b.bits + 1⟩

/-- `b` and `c` are the lower and the upper half of one block. -/
def Siblings (b c : Block κ) : Prop :=
  b.key = c.key ∧ b.bits = c.bits ∧ b.head % 2 = 0 ∧ c.head = b.head + 1

instance [DecidableEq κ] (b c : Block κ) : Decidable (b.Siblings c) :=
  inferInstanceAs (Decidable (_ ∧ _))

theorem start_lt_stop (b : Block κ) : b.start < b.stop := by
  rw [start, stop, Nat.add_mul, Nat.one_mul]
  exact Nat.lt_add_of_pos_right (Nat.two_pow_pos _)

variable {a : ℕ} {k : κ}

theorem covers_iff {b : Block κ} : b.Covers k a ↔ b.key = k ∧ b.start ≤ a ∧ a < b.stop := by
  have hpos : 0 < 2 ^ b.bits := Nat.two_pow_pos _
  rw [Covers, start, stop, Nat.div_eq_iff hpos, Nat.add_mul, Nat.one_mul]
  refine and_congr_right fun _ => ?_
  generalize b.head * 2 ^ b.bits = low
  generalize 2 ^ b.bits = size at hpos ⊢
  omega

theorem covers_start (b : Block κ) : b.Covers b.key b.start :=
  covers_iff.mpr ⟨rfl, Nat.le_refl _, b.start_lt_stop⟩

variable {b c : Block κ}

theorem Overlap.symm (h : b.Overlap c) : c.Overlap b := by
  obtain ⟨k, a, hb, hc⟩ := h
  exact ⟨k, a, hc, hb⟩

/-- **Of two blocks with a number in common the one with more free bits holds the other.** -/
theorem nested (h : b.Overlap c) (hbits : b.bits ≤ c.bits) (ha : b.Covers k a) : c.Covers k a := by
  obtain ⟨k', a', hb', hc'⟩ := h
  obtain ⟨d, hd⟩ := Nat.exists_eq_add_of_le hbits
  have hsplit : ∀ n, n / 2 ^ c.bits = n / 2 ^ b.bits / 2 ^ d := fun n => by
    rw [hd, Nat.pow_add, Nat.div_div_eq_div_mul]
  refine ⟨?_, ?_⟩
  · rw [hc'.1, ← hb'.1, ha.1]
  · rw [hsplit, ha.2, ← hb'.2, ← hsplit, hc'.2]

/-- Two halves cover what their parent covers. -/
theorem Siblings.covers_parent (h : b.Siblings c) (k : κ) (a : ℕ) :
    b.parent.Covers k a ↔ b.Covers k a ∨ c.Covers k a := by
  obtain ⟨hkey, hbits, heven, hhead⟩ := h
  have hdiv : a / 2 ^ (b.bits + 1) = a / 2 ^ b.bits / 2 := by
    rw [Nat.pow_succ, Nat.div_div_eq_div_mul]
  simp only [Covers, parent]
  rw [hdiv, ← hkey, ← hbits, hhead, ← and_or_left]
  refine and_congr_right fun _ => ?_
  omega

theorem Siblings.start_parent (h : b.Siblings c) : b.parent.start = b.start := by
  obtain ⟨-, -, heven, -⟩ := h
  have hhalf : b.head / 2 * 2 = b.head := by omega
  show b.head / 2 * 2 ^ (b.bits + 1) = b.head * 2 ^ b.bits
  rw [Nat.pow_succ', ← Nat.mul_assoc, hhalf]

theorem Siblings.stop_parent (h : b.Siblings c) : b.parent.stop = c.stop := by
  obtain ⟨-, hbits, heven, hhead⟩ := h
  have hhalf : (b.head / 2 + 1) * 2 = c.head + 1 := by omega
  show (b.head / 2 + 1) * 2 ^ (b.bits + 1) = (c.head + 1) * 2 ^ c.bits
  rw [Nat.pow_succ', ← Nat.mul_assoc, hhalf, hbits]

theorem Siblings.stop_eq_start (h : b.Siblings c) : b.stop = c.start := by
  obtain ⟨-, hbits, -, hhead⟩ := h
  rw [stop, start, hbits, hhead]

end Block

open Block

/-! ### Ordered lists of blocks -/

section Order

variable (lt : κ → κ → Prop)

/-- `b` has a smaller key, or the same one and lies below `c`. -/
def Before (b c : Block κ) : Prop := lt b.key c.key ∨ b.key = c.key ∧ b.stop ≤ c.start

/-- An ordered list in which no two blocks are the halves of one. -/
structure Canonical (l : List (Block κ)) : Prop where
  ordered : l.Pairwise (Before lt)
  apart : ∀ b ∈ l, ∀ c ∈ l, ¬ b.Siblings c

variable {lt} [IsStrictOrder κ lt] {b : Block κ}

theorem Before.not_overlap {c : Block κ} (h : Before lt b c) : ¬ b.Overlap c := by
  rintro ⟨k, a, hb, hc⟩
  obtain ⟨hbk, -, hlt⟩ := covers_iff.mp hb
  obtain ⟨hck, hle, -⟩ := covers_iff.mp hc
  rcases h with h | ⟨-, h⟩
  · rw [hbk, hck] at h
    exact irrefl _ h
  · omega

variable {l : List (Block κ)}

/-- In an ordered list the two halves of a block can only stand side by side. -/
theorem canonical_of_isChain (hordered : l.Pairwise (Before lt))
    (hchain : l.IsChain fun b c => ¬ b.Siblings c) : Canonical lt l := by
  refine ⟨hordered, ?_⟩
  induction l with
  | nil => exact fun b hb => absurd hb not_mem_nil
  | cons x l ih =>
    obtain ⟨hfirst, hrest⟩ := pairwise_cons.mp hordered
    -- a later block is no lower half of `x` or of a block before it
    have hback : ∀ b c : Block κ, Before lt c b → ¬ b.Siblings c := by
      intro b c hbefore hsib
      have hedge := hsib.stop_eq_start
      have hb := b.start_lt_stop
      have hc := c.start_lt_stop
      rcases hbefore with hlt | ⟨-, hle⟩
      · rw [hsib.1] at hlt
        exact irrefl _ hlt
      · omega
    -- the block behind `x` lies between `x` and all the others
    have hahead : ∀ c ∈ l, ¬ x.Siblings c := by
      intro c hc hsib
      cases l with
      | nil => exact absurd hc not_mem_nil
      | cons y l =>
        rcases mem_cons.mp hc with rfl | hc
        · exact (isChain_cons_cons.mp hchain).1 hsib
        have hedge := hsib.stop_eq_start
        have hy := y.start_lt_stop
        have hyc := (pairwise_cons.mp hrest).1 c hc
        rcases hfirst y mem_cons_self with hlt | ⟨hkey, hle⟩
        · rcases hyc with hlt' | ⟨hkey', -⟩
          · have hloop := IsTrans.trans _ _ _ hlt hlt'
            rw [hsib.1] at hloop
            exact irrefl _ hloop
          · rw [hsib.1, hkey'] at hlt
            exact irrefl _ hlt
        · rcases hyc with hlt' | ⟨-, hle'⟩
          · rw [← hkey, hsib.1] at hlt'
            exact irrefl _ hlt'
          · omega
    intro b hb c hc
    rcases mem_cons.mp hb with hbx | hb <;> rcases mem_cons.mp hc with hcx | hc
    · intro hsib
      have hedge := hsib.stop_eq_start
      have hpos := x.start_lt_stop
      rw [hbx, hcx] at hedge
      omega
    · exact hbx ▸ hahead c hc
    · exact hcx ▸ hback b x (hfirst b hb)
    · exact ih hrest hchain.tail b hb c hc

theorem Canonical.disjoint (h : Canonical lt l) :
    l.Pairwise fun b c => ¬ b.Overlap c := h.ordered.imp Before.not_overlap

/-- Two blocks of the list with a number in common are one block. -/
theorem Canonical.eq_of_overlap (h : Canonical lt l) {c : Block κ}
    (hb : b ∈ l) (hc : c ∈ l) (hover : b.Overlap c) : b = c := by
  have : Std.Symm fun b c : Block κ => ¬ b.Overlap c := ⟨fun _ _ hno hback => hno hback.symm⟩
  by_contra hne
  exact h.disjoint.forall hb hc hne hover

theorem Canonical.nodup (h : Canonical lt l) : l.Nodup :=
  h.ordered.imp fun {b c} hbefore (heq : b = c) =>
    hbefore.not_overlap (heq ▸ ⟨b.key, b.start, b.covers_start, b.covers_start⟩)

/-- **Around every block of the list something is missing**: the block it is a half of is not
    covered. -/
theorem Canonical.exists_gap (h : Canonical lt l) (hb : b ∈ l) :
    ∃ a, b.parent.Covers b.key a ∧ ∀ c ∈ l, ¬ c.Covers b.key a := by
  -- on the number of free bits: what lies in the other half has fewer
  induction hn : b.bits using Nat.strongRecOn generalizing b with
  | _ n ih =>
    subst hn
    by_contra hall
    have hcovered : ∀ a, b.parent.Covers b.key a → ∃ c ∈ l, c.Covers b.key a := by
      intro a ha
      by_contra hno
      exact hall ⟨a, ha, fun c hc hcov => hno ⟨c, hc, hcov⟩⟩
    -- the other half
    let s : Block κ := ⟨b.key, if b.head % 2 = 0 then b.head + 1 else b.head - 1, b.bits⟩
    have hhalf : s.head / 2 = b.head / 2 := by
      show (if b.head % 2 = 0 then b.head + 1 else b.head - 1) / 2 = _
      split <;> omega
    have hother : s.head ≠ b.head := by
      show (if b.head % 2 = 0 then b.head + 1 else b.head - 1) ≠ _
      split <;> omega
    have hpair : b.Siblings s ∨ s.Siblings b := by
      rcases Nat.mod_two_eq_zero_or_one b.head with heven | hodd
      · refine .inl ⟨rfl, rfl, heven, ?_⟩
        show (if b.head % 2 = 0 then b.head + 1 else b.head - 1) = _
        rw [if_pos heven]
      · have hs : s.head = b.head - 1 := by
          show (if b.head % 2 = 0 then b.head + 1 else b.head - 1) = _
          rw [if_neg (by omega)]
        exact .inr ⟨rfl, rfl, by omega, by omega⟩
    have hinside : ∀ a, s.Covers b.key a → b.parent.Covers b.key a := fun a ha => by
      refine ⟨rfl, ?_⟩
      have hsplit : a / 2 ^ (b.bits + 1) = a / 2 ^ b.bits / 2 := by
        rw [Nat.pow_succ, Nat.div_div_eq_div_mul]
      show a / 2 ^ (b.bits + 1) = b.head / 2
      rw [hsplit, ← hhalf, ← ha.2]
    obtain ⟨c, hc, hcov⟩ := hcovered s.start (hinside _ s.covers_start)
    have hover : c.Overlap s := ⟨b.key, s.start, hcov, s.covers_start⟩
    rcases Nat.lt_trichotomy c.bits b.bits with hlt | heq | hgt
    · -- `c` is in the other half and so is what is missing around it
      obtain ⟨a, ha, hmissing⟩ := ih c.bits hlt hc rfl
      rw [hcov.1] at ha hmissing
      have hup : c.parent.Overlap s := by
        refine ⟨b.key, s.start, ⟨hcov.1, ?_⟩, s.covers_start⟩
        show s.start / 2 ^ (c.bits + 1) = c.head / 2
        rw [Nat.pow_succ, ← Nat.div_div_eq_div_mul, hcov.2]
      obtain ⟨d, hd, hdcov⟩ := hcovered a (hinside a (nested hup hlt ha))
      exact hmissing d hd hdcov
    · have hcs : c = s := by
        obtain ⟨hkey, hhead⟩ := nested hover (le_of_eq heq) hcov
        have hch : c.head = s.head := by rw [← hcov.2, ← hhead, heq]
        cases c
        exact congr (congr (congrArg Block.mk hcov.1) hch) heq
      rcases hpair with hpair | hpair
      · exact h.apart b hb c hc (hcs ▸ hpair)
      · exact h.apart c hc b hb (hcs ▸ hpair)
    · -- `c` holds both halves
      have hparent : b.parent.Overlap c := ⟨b.key, s.start, hinside _ s.covers_start, hcov⟩
      have hbparent : b.parent.Covers b.key b.start := by
        refine ⟨rfl, ?_⟩
        show b.start / 2 ^ (b.bits + 1) = b.head / 2
        rw [Nat.pow_succ, ← Nat.div_div_eq_div_mul, b.covers_start.2]
      have hbc := h.eq_of_overlap hb hc
        ⟨b.key, b.start, b.covers_start, nested hparent hgt hbparent⟩
      rw [hbc] at hgt
      exact absurd hgt (Nat.lt_irrefl _)

/-- **A canonical list is a shortest one**: no list of blocks that covers the same numbers has fewer
    members. -/
theorem Canonical.length_le {l other : List (Block κ)} (h : Canonical lt l)
    (hcovers : ∀ k a, (∃ b ∈ l, b.Covers k a) ↔ ∃ b ∈ other, b.Covers k a) :
    l.length ≤ other.length := by
  -- every block of the list holds a block of the other one
  have hinner : ∀ b ∈ l, ∃ o ∈ other, o.Overlap b ∧ o.bits ≤ b.bits := by
    intro b hb
    obtain ⟨o, ho, hcov⟩ := (hcovers b.key b.start).mp ⟨b, hb, b.covers_start⟩
    refine ⟨o, ho, ⟨b.key, b.start, hcov, b.covers_start⟩, ?_⟩
    by_contra hgt
    obtain ⟨a, ha, hmissing⟩ := h.exists_gap hb
    have hparent : b.parent.Overlap o := by
      refine ⟨b.key, b.start, ⟨rfl, ?_⟩, hcov⟩
      show b.start / 2 ^ (b.bits + 1) = b.head / 2
      rw [Nat.pow_succ, ← Nat.div_div_eq_div_mul, b.covers_start.2]
    obtain ⟨c, hc, hccov⟩ := (hcovers b.key a).mpr
      ⟨o, ho, nested hparent (Nat.lt_of_not_le hgt) ha⟩
    exact hmissing c hc hccov
  choose! f hmem hover hbits using hinner
  have hinj : (l.map f).Nodup := by
    refine Nodup.map_on (fun b hb c hc heq => ?_) h.nodup
    have hb' := nested (hover b hb) (hbits b hb) (f b).covers_start
    have hc' := nested (hover c hc) (hbits c hc) (f c).covers_start
    rw [← heq] at hc'
    exact h.eq_of_overlap hb hc ⟨_, _, hb', hc'⟩
  have hsub : l.map f ⊆ other := by
    intro o ho
    obtain ⟨b, hb, rfl⟩ := List.mem_map.mp ho
    exact hmem b hb
  have hle := (subperm_of_subset hinj hsub).length_le
  rwa [length_map] at hle

end Order

/-! ### The stack -/

variable [DecidableEq κ]

/-- Put a block on the stack, whose top is the head of the list, and replace the top two by their
    parent as long as they are its halves. -/
def settle (x : Block κ) : List (Block κ) → List (Block κ)
  | [] => [x]
  | y :: st => if y.Siblings x then settle y.parent st else x :: y :: st

/-- The stack after the blocks of a list, bottom first. -/
def aggregate (l : List (Block κ)) : List (Block κ) := (l.foldl (fun st x => settle x st) []).reverse

attribute [local simp] settle in
theorem covers_settle (x : Block κ) (st : List (Block κ)) (k : κ) (a : ℕ) :
    (∃ b ∈ settle x st, b.Covers k a) ↔ ∃ b ∈ x :: st, b.Covers k a := by
  induction st generalizing x with
  | nil => rfl
  | cons y st ih =>
    rw [settle]
    split
    · next hsib =>
      rw [ih]
      simp only [mem_cons, exists_eq_or_imp, hsib.covers_parent]
      tauto
    · rfl

variable {lt : κ → κ → Prop} [IsStrictOrder κ lt]
variable {st : List (Block κ)} {x : Block κ}

omit [IsStrictOrder κ lt] in
theorem settle_before {r : Block κ} (h : ∀ b ∈ x :: st, Before lt b r) :
    ∀ b ∈ settle x st, Before lt b r := by
  induction st generalizing x with
  | nil => exact h
  | cons y st ih =>
    rw [settle]
    split
    · next hsib =>
      refine ih fun b hb => ?_
      rcases mem_cons.mp hb with rfl | hb
      · rcases h x mem_cons_self with hlt | ⟨hkey, hle⟩
        · exact .inl (hsib.1 ▸ hlt)
        · exact .inr ⟨hsib.1.trans hkey, hsib.stop_parent ▸ hle⟩
      · exact h b (mem_cons_of_mem _ (mem_cons_of_mem _ hb))
    · exact h

omit [IsStrictOrder κ lt] in
theorem settle_ordered (h : (x :: st).Pairwise fun b c => Before lt c b) :
    (settle x st).Pairwise fun b c => Before lt c b := by
  induction st generalizing x with
  | nil => exact h
  | cons y st ih =>
    rw [settle]
    split
    · next hsib =>
      have htail := (pairwise_cons.mp h).2
      obtain ⟨hy, hst⟩ := pairwise_cons.mp htail
      refine ih (pairwise_cons.mpr ⟨fun b hb => ?_, hst⟩)
      rcases hy b hb with hlt | ⟨hkey, hle⟩
      · exact .inl hlt
      · exact .inr ⟨hkey, hsib.start_parent ▸ hle⟩
    · exact h

theorem settle_apart (h : st.IsChain fun b c => ¬ c.Siblings b) :
    (settle x st).IsChain fun b c => ¬ c.Siblings b := by
  induction st generalizing x with
  | nil => exact isChain_singleton x
  | cons y st ih =>
    rw [settle]
    split
    · exact ih h.tail
    · next hsib => exact isChain_cons_cons.mpr ⟨hsib, h⟩

/-- **Aggregating keeps what is covered.** -/
theorem covers_aggregate (l : List (Block κ)) (k : κ) (a : ℕ) :
    (∃ b ∈ aggregate l, b.Covers k a) ↔ ∃ b ∈ l, b.Covers k a := by
  have hrun : ∀ st, (∃ b ∈ l.foldl (fun st x => settle x st) st, b.Covers k a) ↔
      ∃ b ∈ st ++ l, b.Covers k a := by
    induction l with
    | nil => exact fun st => by rw [append_nil, foldl_nil]
    | cons x l ih =>
      intro st
      have hstep := covers_settle x st k a
      simp only [mem_cons, exists_eq_or_imp] at hstep
      rw [foldl_cons, ih]
      simp only [mem_append, mem_cons, or_and_right, exists_or, exists_eq_left, hstep]
      rw [or_assoc, or_left_comm]
  simpa [aggregate] using hrun []

/-- **Aggregating an ordered list gives a canonical one.** -/
theorem aggregate_canonical {l : List (Block κ)} (h : l.Pairwise (Before lt)) :
    Canonical lt (aggregate l) := by
  have hrun : ∀ st : List (Block κ), (st.Pairwise fun b c => Before lt c b) →
      (st.IsChain fun b c => ¬ c.Siblings b) → (∀ b ∈ st, ∀ r ∈ l, Before lt b r) →
      ((l.foldl (fun st x => settle x st) st).Pairwise fun b c => Before lt c b) ∧
        (l.foldl (fun st x => settle x st) st).IsChain fun b c => ¬ c.Siblings b := by
    induction l with
    | nil => exact fun st hst hchain _ => ⟨hst, hchain⟩
    | cons x l ih =>
      intro st hst hchain hahead
      obtain ⟨hx, hl⟩ := pairwise_cons.mp h
      have hpush := pairwise_cons.mpr ⟨fun b hb => hahead b hb x mem_cons_self, hst⟩
      refine ih hl _ (settle_ordered hpush) (settle_apart hchain) fun b hb r hr => ?_
      refine settle_before (fun c hc => ?_) b hb
      rcases mem_cons.mp hc with rfl | hc
      · exact hx r hr
      · exact hahead c hc r (mem_cons_of_mem _ hr)
  obtain ⟨hordered, hchain⟩ := hrun [] List.Pairwise.nil isChain_nil
    fun b hb => absurd hb not_mem_nil
  exact canonical_of_isChain (pairwise_reverse.mpr hordered) (isChain_reverse.mpr hchain)

end Cidr
