import DreamingOS.Export.Exact

namespace DreamingOS.Export

open List

/-!
# Flow export — which templates a collector has been sent

Runs of calls of `emit`, under any answers of the sink.

* `dataIds`, `templateIds` — the template ids a datagram uses, and those it announces;
* `Available` — every data set sent is of a template sent before it, and not too long before;
* `Steady` — a datagram with a template is sent, and one without is of the family of the last one
  that carried a template;
* `run_available` — **in a steady run the templates are available**;
* `second_family_undecodable` — one timer for two families: the second one gets no template.
-/

/-! ### Runs -/

/-- A call of `emit`: the flows, the clock, and the answers of the sink. -/
structure Call where
  flows : List Flow
  nowMs : UInt64
  sends : ℕ → Bool

/-- The datagrams of a run of calls. -/
def run (config : Config) : ExportState → List Call → List Attempt
  | _, [] => []
  | state, c :: cs =>
    (emit config c.sends state c.flows c.nowMs).attempts ++
      run config (emit config c.sends state c.flows c.nowMs).state cs

/-- The template ids of the data sets of a datagram. -/
def dataIds (bytes : List UInt8) : List ℕ :=
  match readMessage bytes with
  | none => []
  | some message => (message.sets.filter fun set => 256 ≤ set.id).map RawSet.id

/-- The template ids the template sets of a datagram announce. -/
def templateIds (bytes : List UInt8) : List ℕ :=
  match readMessage bytes with
  | none => []
  | some message =>
    (message.sets.filter fun set => set.id =
        if message.version = 10 then ipfixSetTemplate else netflow9FlowsetTemplate).flatMap fun set =>
      ((readTemplates set.body.length set.body).getD []).map Prod.fst

/-- A data set is of a template of its own datagram, or of one sent before, less than the refresh
    time ago where there is one. -/
def Decodable (config : Config) (sentBefore : List Attempt) (d : Attempt) : Prop :=
  ∀ id ∈ dataIds d.bytes, id ∈ templateIds d.bytes ∨
    ∃ e ∈ sentBefore, id ∈ templateIds e.bytes ∧ (config.templateRefreshS ≠ 0 →
      d.nowMs.toNat - e.nowMs.toNat ≤ config.templateRefreshS.toNat * 1000)

/-- Every datagram sent is decodable by those sent before it. -/
def Available (config : Config) (sent : List Attempt) : Prop :=
  ∀ pre d post, sent = pre ++ d :: post → Decodable config pre d

/-- The family of the flows of a datagram. -/
def Attempt.flowFamily (a : Attempt) : Option Family := a.batch.head?.map Flow.family

/-- Where a template is due the datagram is sent, and where none is due its flows are of the family
    of the last datagram with a template, `last`. -/
def Steady (config : Config) : Option Family → List Attempt → Prop
  | _, [] => True
  | last, a :: as =>
    if templateDue config a.before a.nowMs then a.sent = true ∧ Steady config a.flowFamily as
    else a.flowFamily = last ∧ Steady config last as

instance (config : Config) : (last : Option Family) → (as : List Attempt) →
    Decidable (Steady config last as)
  | _, [] => isTrue trivial
  | last, a :: as =>
    have := instDecidableSteady config last as
    have := instDecidableSteady config a.flowFamily as
    inferInstanceAs (Decidable (if templateDue config a.before a.nowMs
      then a.sent = true ∧ Steady config a.flowFamily as
      else a.flowFamily = last ∧ Steady config last as))

/-! ### Datagrams -/

variable {config : Config} {family : Family} {a : Attempt}

theorem Attempt.Encoded.ids (h : a.Encoded config family)
    (hprotocol : config.protocol = protocolIpfix ∨ config.protocol = protocolNetflow9) :
    dataIds a.bytes = [templateIdFor family] ∧ templateIds a.bytes =
        if templateDue config a.before a.nowMs then [templateIdFor family] else [] := by
  have hle := h.le hprotocol
  rw [h.bytes] at hle
  obtain ⟨message, hread, hversion, -, -, hsets⟩ :=
    readMessage_datagram hprotocol hle (h.length_lt hprotocol)
  rw [← h.bytes] at hread
  have hset : setIdTemplate config.protocol =
      (if message.version = 10 then ipfixSetTemplate else netflow9FlowsetTemplate) := by
    rw [hversion, setIdTemplate]
    rcases hprotocol with hprotocol | hprotocol <;> rw [hprotocol] <;> rfl
  have hid : 256 ≤ templateIdFor family := by cases family <;> decide
  have hsmall := setIdTemplate_lt config.protocol
  have hne : templateIdFor family ≠ setIdTemplate config.protocol := by omega
  rw [dataIds, templateIds, hread]
  dsimp only
  rw [← hset, hsets, rawSets]
  cases templateDue config a.before a.nowMs with
  | false => simp [hid, hne]
  | true => simp [hid, hne, Nat.not_le.mpr hsmall, readTemplates_templateBody]

theorem Attempt.Encoded.flowFamily (h : a.Encoded config family) : a.flowFamily = some family := by
  obtain ⟨first, rest, hbatch⟩ := exists_cons_of_ne_nil h.batch
  have hfirst := h.same first (by rw [hbatch]; exact mem_cons_self)
  rw [Attempt.flowFamily, hbatch]
  exact congrArg some hfirst

/-! ### Runs are linked -/

/-- Datagrams each encoded in the state behind the one before, under a clock that does not go
    back. -/
def Linked (config : Config) : ExportState → UInt64 → List Attempt → Prop
  | _, _, [] => True
  | state, nowMs, a :: as => a.before = state ∧ nowMs ≤ a.nowMs ∧
      (∃ family, a.Encoded config family) ∧ Linked config (a.after config) a.nowMs as

variable {state : ExportState} {nowMs : UInt64} {as : List Attempt}

theorem Linked.later {earlier : UInt64} (h : Linked config state nowMs as) (hle : earlier ≤ nowMs) :
    Linked config state earlier as := by
  cases as with
  | nil => trivial
  | cons a as => exact ⟨h.1, UInt64.le_trans hle h.2.1, h.2.2⟩

theorem Chained.linked {final : ExportState}
    {more : List Attempt} (h : Chained config nowMs state as final)
    (hmore : Linked config final nowMs more) : Linked config state nowMs (as ++ more) := by
  induction as generalizing state with
  | nil =>
    obtain rfl := h
    exact hmore
  | cons a as ih =>
    obtain ⟨hbefore, rfl, hencoded, hchain⟩ := h
    exact ⟨hbefore, UInt64.le_refl _, hencoded, ih hchain⟩

theorem run_linked (config : Config) (state : ExportState) (nowMs : UInt64) (calls : List Call)
    (hstart : ∀ c ∈ calls, nowMs ≤ c.nowMs)
    (hclock : calls.Pairwise fun c d => c.nowMs ≤ d.nowMs) :
    Linked config state nowMs (run config state calls) := by
  induction calls generalizing state nowMs with
  | nil => trivial
  | cons c cs ih =>
    obtain ⟨hfirst, hclock⟩ := pairwise_cons.mp hclock
    obtain ⟨hchain, -⟩ := emit_chained config c.sends state c.flows c.nowMs
    exact (hchain.linked (ih _ c.nowMs hfirst hclock)).later (hstart c mem_cons_self)

theorem run_invalid
    (hprotocol : ¬ (config.protocol = protocolIpfix ∨ config.protocol = protocolNetflow9))
    (state : ExportState) (calls : List Call) : run config state calls = [] := by
  induction calls generalizing state with
  | nil => rfl
  | cons c cs ih =>
    have hnone : (emit config c.sends state c.flows c.nowMs).attempts = [] := by
      unfold emit
      split
      · rfl
      split
      · rfl
      · exact (emitLoop_invalid hprotocol c.sends c.nowMs _ _ state c.flows).1
    rw [run, hnone, ih]
    rfl

/-! ### Steady runs -/

/-- The last template sent, where the state says that one was: it is of family `last`, and the
    state has its time. -/
def LastTemplate (state : ExportState) (last : Option Family) (sent : List Attempt) : Prop :=
  state.lastTemplateMs = 0 ∨ ∃ e ∈ sent, ∃ family, last = some family ∧
    e.nowMs = state.lastTemplateMs ∧ templateIdFor family ∈ templateIds e.bytes

/-- A template that is not due was sent less than the refresh time ago. -/
theorem templateDue_false
    (h : templateDue config state nowMs = false) (hle : state.lastTemplateMs ≤ nowMs) :
    state.lastTemplateMs ≠ 0 ∧ (config.templateRefreshS ≠ 0 →
      nowMs.toNat - state.lastTemplateMs.toNat ≤ config.templateRefreshS.toNat * 1000) := by
  unfold templateDue at h
  simp only [Bool.or_eq_false_iff, Bool.and_eq_false_iff, decide_eq_false_iff_not, ne_eq,
    not_not] at h
  obtain ⟨hzero, hrefresh⟩ := h
  refine ⟨hzero, fun hne => ?_⟩
  rcases hrefresh with hrefresh | hrefresh
  · exact absurd hrefresh hne
  · have hlt := UInt64.lt_iff_toNat_lt.mp (UInt64.not_le.mp hrefresh)
    have hbound := config.templateRefreshS.toNat_lt
    rw [UInt64.toNat_sub_of_le _ _ hle, UInt64.toNat_mul, UInt32.toNat_toUInt64] at hlt
    have hsmall : config.templateRefreshS.toNat * (1000 : UInt64).toNat % 2 ^ 64 =
        config.templateRefreshS.toNat * 1000 := by
      show config.templateRefreshS.toNat * 1000 % 2 ^ 64 = _
      omega
    rw [hsmall] at hlt
    exact hlt.le

theorem steady_available {config : Config}
    (hprotocol : config.protocol = protocolIpfix ∨ config.protocol = protocolNetflow9)
    {state : ExportState} {nowMs : UInt64} {last : Option Family} {before as : List Attempt}
    (hlinked : Linked config state nowMs as) (hlast : LastTemplate state last before)
    (htime : state.lastTemplateMs ≤ nowMs) (hsteady : Steady config last as) :
    ∀ pre d post, as.filter Attempt.sent = pre ++ d :: post →
      Decodable config (before ++ pre) d := by
  induction as generalizing state nowMs last before with
  | nil =>
    intro pre d post hsplit
    simp at hsplit
  | cons a as ih =>
    obtain ⟨hbefore, hnow, ⟨family, hencoded⟩, hlinked⟩ := hlinked
    obtain ⟨hdata, htemplates⟩ := hencoded.ids hprotocol
    -- what is to be shown of `a`, if it is sent, and of the datagrams behind it
    have hcons : ∀ {before' : List Attempt},
        (a.sent = true → Decodable config before a ∧ before' = before ++ [a]) →
        (a.sent = false → before' = before) →
        (∀ pre d post, as.filter Attempt.sent = pre ++ d :: post →
          Decodable config (before' ++ pre) d) →
        ∀ pre d post, (a :: as).filter Attempt.sent = pre ++ d :: post →
          Decodable config (before ++ pre) d := by
      intro before' hsent hunsent hrest pre d post hsplit
      cases hs : a.sent with
      | false =>
        rw [filter_cons_of_neg (by rw [hs]; exact Bool.false_ne_true)] at hsplit
        rw [← hunsent hs]
        exact hrest pre d post hsplit
      | true =>
        rw [filter_cons_of_pos hs] at hsplit
        obtain ⟨hdecodable, rfl⟩ := hsent hs
        cases pre with
        | nil =>
          obtain ⟨rfl, -⟩ := List.cons.inj hsplit
          rw [append_nil]
          exact hdecodable
        | cons b pre =>
          obtain ⟨rfl, hsplit'⟩ := List.cons.inj hsplit
          have hlater := hrest pre d post hsplit'
          rw [append_assoc] at hlater
          exact hlater
    have htime' : state.lastTemplateMs ≤ a.nowMs := UInt64.le_trans htime hnow
    rw [Steady] at hsteady
    by_cases hdue : templateDue config a.before a.nowMs = true
    · -- the datagram carries its own template
      rw [if_pos hdue] at hsteady htemplates
      obtain ⟨hsent, hsteady⟩ := hsteady
      refine hcons (fun _ => ⟨?_, rfl⟩) (fun hunsent => by rw [hsent] at hunsent; cases hunsent)
        (ih hlinked ?_ ?_ hsteady)
      · intro id hid
        rw [hdata] at hid
        rw [htemplates]
        exact .inl hid
      · refine .inr ⟨a, by simp, family, hencoded.flowFamily, ?_, ?_⟩
        · show a.nowMs = if templateDue config a.before a.nowMs then a.nowMs else _
          rw [if_pos hdue]
        · rw [htemplates]
          exact mem_cons_self
      · show (if templateDue config a.before a.nowMs then a.nowMs else _) ≤ a.nowMs
        rw [if_pos hdue]
        exact UInt64.le_refl _
    · -- it relies on the last template, which is of its family
      rw [if_neg hdue] at hsteady
      obtain ⟨hfamily, hsteady⟩ := hsteady
      rw [hencoded.flowFamily] at hfamily
      have hstate : (a.after config).lastTemplateMs = state.lastTemplateMs := by
        show (if templateDue config a.before a.nowMs then a.nowMs else a.before.lastTemplateMs) = _
        rw [if_neg hdue, hbefore]
      have hfalse := eq_false_of_ne_true hdue
      rw [hbefore] at hfalse
      obtain ⟨hne, hrefresh⟩ := templateDue_false hfalse htime'
      have hdecodable : Decodable config before a := by
        intro id hid
        rw [hdata, mem_singleton] at hid
        rcases hlast with hzero | ⟨e, he, family', hlast, hnowe, htemplate⟩
        · exact absurd hzero hne
        · obtain rfl := Option.some.inj (hfamily.trans hlast)
          refine .inr ⟨e, he, by rw [hid]; exact htemplate, ?_⟩
          rw [hnowe]
          exact hrefresh
      have hlast' : ∀ more, LastTemplate (a.after config) last (before ++ more) := by
        intro more
        rw [LastTemplate, hstate]
        exact hlast.imp id fun ⟨e, he, hrest⟩ => ⟨e, mem_append_left _ he, hrest⟩
      cases hs : a.sent with
      | true =>
        refine hcons (fun _ => ⟨hdecodable, rfl⟩) (fun h => by rw [hs] at h; cases h)
          (ih hlinked (hlast' [a]) (by rw [hstate]; exact htime') hsteady)
      | false =>
        have hlast₀ := hlast' []
        rw [append_nil] at hlast₀
        refine hcons (fun h => by rw [hs] at h; cases h) (fun _ => rfl)
          (ih hlinked hlast₀ (by rw [hstate]; exact htime') hsteady)

/-- **In a steady run the templates are available.**  From the start of the exporter on, under a
    clock that does not go back, every data set that is sent is of a template that was sent with it
    or before, and, where there is a refresh time, no longer ago than that. -/
theorem run_available (config : Config) (state : ExportState) (hstart : state.lastTemplateMs = 0)
    (calls : List Call) (hclock : calls.Pairwise fun c d => c.nowMs ≤ d.nowMs)
    (hsteady : Steady config none (run config state calls)) :
    Available config ((run config state calls).filter Attempt.sent) := by
  have hlinked := run_linked config state 0 calls (fun c _ => UInt64.zero_le) hclock
  by_cases hprotocol : config.protocol = protocolIpfix ∨ config.protocol = protocolNetflow9
  · have hall := @steady_available config hprotocol state 0 none [] _ hlinked (.inl hstart)
      (by rw [hstart]; exact UInt64.le_refl 0) hsteady
    intro pre d post hsplit
    exact hall pre d post hsplit
  · -- nothing is encoded for another protocol
    intro pre d post hsplit
    rw [run_invalid hprotocol] at hsplit
    simp at hsplit

theorem run_available_v4 : Available ⟨true, 10, 600, 42⟩ ((run ⟨true, 10, 600, 42⟩ ⟨0, 0, 1000, 0⟩
      [⟨[sampleFlow .inet], 5000, fun _ => true⟩, ⟨[sampleFlow .inet], 9000, fun _ => true⟩]).filter
        Attempt.sent) :=
  run_available ⟨true, 10, 600, 42⟩ ⟨0, 0, 1000, 0⟩ rfl
    [⟨[sampleFlow .inet], 5000, fun _ => true⟩, ⟨[sampleFlow .inet], 9000, fun _ => true⟩]
    (by simp) (by decide +kernel)

/-- One timer for two families: in the first call, the datagram of the second family goes out
    without its template, which no datagram has carried. -/
theorem second_family_undecodable :
    ¬ Available ⟨true, 10, 600, 42⟩ ((run ⟨true, 10, 600, 42⟩ ⟨0, 0, 1000, 0⟩
      [⟨[sampleFlow .inet, sampleFlow .inet6], 5000, fun _ => true⟩]).filter Attempt.sent) := by
  intro havailable
  generalize hsent : (run ⟨true, 10, 600, 42⟩ ⟨0, 0, 1000, 0⟩
    [⟨[sampleFlow .inet, sampleFlow .inet6], 5000, fun _ => true⟩]).filter Attempt.sent = sent
    at havailable
  have hids : sent.map (fun d => (dataIds d.bytes, templateIds d.bytes)) =
      [([256], [256]), ([257], [])] := by
    rw [← hsent]
    decide +kernel
  obtain ⟨e, rest, rfl, he, hrest⟩ := map_eq_cons_iff.mp hids
  obtain ⟨d, rest, rfl, hd, hrest⟩ := map_eq_cons_iff.mp hrest
  have hdecodable := havailable [e] d rest rfl 257 (by rw [(Prod.mk.inj hd).1]; simp)
  rw [(Prod.mk.inj hd).2] at hdecodable
  rcases hdecodable with hown | ⟨e', he', hother, -⟩
  · cases hown
  · rw [mem_singleton.mp he', (Prod.mk.inj he).2] at hother
    exact absurd hother (by decide)

end DreamingOS.Export
