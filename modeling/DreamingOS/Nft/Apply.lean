import DreamingOS.Lib.JsonBytes

namespace DreamingOS.Nft

open JsonBytes List Option

/-!
# Revisions of the nftables table

`flowd_nft_apply.h`: a revision of flowd's table is installed by one batch, read back, and rolled
back when it is not what is read.

* `jsonTablePresent`, `jsonSentinel`, `readback` — what a listing says about the table;
* `applyRevision` — the commands, with the rollback;
* `World` — which of the calls succeed, and which batches take effect, whatever was reported;
* `apply_truthful` — **the result tells what became of the table**, in every world;
* `apply_run` — what a run of calls can leave behind.
-/

def word (s : String) : List UInt8 := Text.ascii s.toList

def FLOWD_NFT_TABLE : List UInt8 := word "dreamingwrt_flowd"
def FLOWD_NFT_REVISION_PREFIX : List UInt8 := word "flowd-revision:"

abbrev Json := Value Empty

/-! ### The kernel -/

/-- The table of flowd: its comment, and what else it holds. -/
structure Table where
  comment : Option (List UInt8)
  rest : List (List UInt8 × Json)
  kinds : ∀ e ∈ rest, e.1 ≠ word "metainfo" ∧ e.1 ≠ word "table"

/-- The table that carries a revision and nothing else. -/
def sentinel (revision : List UInt8) : Table := ⟨some (FLOWD_NFT_REVISION_PREFIX ++ revision), [], nofun⟩

/-- The other tables, by family and name. -/
structure Others where
  tables : List (List UInt8 × List UInt8)
  foreign : ∀ o ∈ tables, ¬ (o.1 = word "inet" ∧ o.2 = FLOWD_NFT_TABLE)

def tableFields (family name : List UInt8) (comment : Option (List UInt8)) : Json :=
  .obj ([(word "family", .str family), (word "name", .str name)] ++
    (comment.map fun c => (word "comment", .str c)).toList)

def tableJson (family name : List UInt8) (comment : Option (List UInt8)) : Json :=
  .obj [(word "table", tableFields family name comment)]

def metainfo : Json := .obj [(word "metainfo", .obj [(word "json_schema_version", .int 1)])]

/-- What `nft -j list tables` prints. -/
def listTables (others : Others) (t : Option Table) : Json :=
  .obj [(word "nftables", .arr (metainfo :: (others.tables.map fun o => tableJson o.1 o.2 none) ++
    (t.map fun table => tableJson (word "inet") FLOWD_NFT_TABLE table.comment).toList))]

/-- What `nft -j list table inet dreamingwrt_flowd` prints. -/
def listTable (table : Table) : Json :=
  .obj [(word "nftables", .arr (metainfo :: tableJson (word "inet") FLOWD_NFT_TABLE table.comment ::
    table.rest.map fun e => .obj [e]))]

/-- A statement of a batch. -/
inductive Stmt where
  | delete
  | create (revision : List UInt8)

/-- A table that is there keeps its comment when it is declared again, and one that is not cannot
    be deleted. -/
def Stmt.run (t : Option Table) : Stmt → Option (Option Table)
  | .delete => if t.isSome then some none else none
  | .create revision => some (some (t.getD (sentinel revision)))

/-- A batch is atomic, and may take no effect. -/
def exec (takes : Bool) (batch : List Stmt) (t : Option Table) : Option Table :=
  if takes then (batch.foldlM Stmt.run t).getD t else t

/-! ### The calls -/

/-- The tag of a readback. -/
inductive Tag where
  | before
  | after
  | failedApply
  | rollback

/-- What can fail. -/
inductive Call where
  | access
  | lockPath
  | lockOpen
  | lock
  | listPath (tag : Tag)
  | listTables (tag : Tag)
  | readList (tag : Tag)
  | tablePath (tag : Tag)
  | listTable (tag : Tag)
  | readTable (tag : Tag)
  | applyFile
  | rollbackFile
  | outputPath
  | check
  | rollbackCheck
  | apply
  | rollback

/-- Which calls report success; whether the lock is held by another process; and which of the two
    batches take effect. -/
structure World where
  ok : Call → Bool
  (busy applies rollsBack : Bool)

/-! ### The readback -/

/-- `json_object_get_string`. -/
def getString : Json → Option (List UInt8)
  | .null => none
  | .str s => some s
  | j => some (j.print nofun)

/-- The tests of a table's family and name. -/
def isFlowd (table : Json) : Bool :=
  match table.member (word "family"), table.member (word "name") with
  | some family, some name => getString family = some (word "inet") && getString name = some FLOWD_NFT_TABLE
  | _, _ => false

/-- `flowd_nft_json_table_present`. -/
def jsonTablePresent (root : Option Json) : Option Bool :=
  match root.bind fun root => root.member (word "nftables") with
  | some (.arr items) => some (items.any fun entry => (entry.member (word "table")).any isFlowd)
  | _ => none

/-- What `flowd_nft_json_sentinel` returns. -/
inductive Sentinel where
  | invalid
  | conflict
  | revision (r : List UInt8)

/-- The revision in the comment of a table, in a buffer of 128 bytes. -/
def commentRevision (table : Json) : Option (List UInt8) :=
  (table.member (word "comment")).bind fun comment => (getString comment).bind fun s =>
    if FLOWD_NFT_REVISION_PREFIX.isPrefixOf s then
      some ((s.drop FLOWD_NFT_REVISION_PREFIX.length).take 127)
    else none

def sentinelLoop (tables others : ℕ) (revision : List UInt8) : List Json → Sentinel
  | [] => if tables = 1 ∧ others = 0 ∧ revision ≠ [] then .revision revision else .conflict
  | entry :: rest =>
    if (entry.member (word "metainfo")).isSome then sentinelLoop tables others revision rest
    else
      match entry with
      | .null => sentinelLoop tables others revision rest
      | entry =>
        match entry.member (word "table") with
        | none => sentinelLoop tables (others + 1) revision rest
        | some table =>
          if !isFlowd table then .invalid
          else
            match commentRevision table with
            | none => .conflict
            | some revision => sentinelLoop (tables + 1) others revision rest

/-- `flowd_nft_json_sentinel`. -/
def jsonSentinel (root : Option Json) : Sentinel :=
  match root.bind fun root => root.member (word "nftables") with
  | some (.arr items) => sentinelLoop 0 0 [] items
  | _ => .invalid

/-- `struct flowd_nft_readback`. -/
structure Readback where
  present : Bool := false
  sentinelOnly : Bool := false
  revision : List UInt8 := []

/-- `flowd_nft_readback`, with the error of the readback. -/
def readback (w : World) (others : Others) (tag : Tag) (t : Option Table) : Except String Readback :=
  if !w.ok (.listPath tag) then .error ""
  else if !w.ok (.listTables tag) then .error "nft_list_tables_failed"
  else
    match jsonTablePresent (if w.ok (.readList tag) then some (listTables others t) else none) with
    | none => .error "nft_list_tables_invalid_json"
    | some false => .ok {}
    | some true =>
      if !w.ok (.tablePath tag) then .error ""
      else if !w.ok (.listTable tag) then .error "nft_list_table_failed"
      else
        match jsonSentinel (if w.ok (.readTable tag) then t.map listTable else none) with
        | .invalid => .error "nft_table_invalid_json"
        | .conflict => .error "nft_table_ownership_conflict"
        | .revision r => .ok { present := true, sentinelOnly := true, revision := r }

/-! ### The revision -/

/-- `flowd_nft_safe_token`. -/
def safeToken (s : List UInt8) (max : ℕ) : Bool :=
  s ≠ [] && s.length ≤ max && s.all fun c =>
    (0x30 ≤ c && c ≤ 0x39) || (0x41 ≤ c && c ≤ 0x5a) || (0x61 ≤ c && c ≤ 0x7a) ||
      c = 0x2d || c = 0x5f || c = 0x2e

/-- The batch that `flowd_nft_write_batch` writes; 512 bytes hold the longest one. -/
def writeBatch (revision : List UInt8) (replace deleteOnly : Bool) : Option (List Stmt) :=
  if !safeToken revision 120 && !deleteOnly then none
  else some ((if replace || deleteOnly then [.delete] else []) ++
    if deleteOnly then [] else [.create revision])

/-- `struct flowd_nft_apply_result`, without the paths. -/
structure Result where
  validated : Bool := false
  applied : Bool := false
  readbackOk : Bool := false
  rolledBack : Bool := false
  rollbackOk : Bool := false
  previousPresent : Bool := false
  previousRevision : List UInt8 := []
  revision : List UInt8 := []
  error : String := ""

/-- The result, whether zero is returned, and the table after the first batch and at the end. -/
structure Outcome where
  result : Result
  success : Bool := false
  (between table : Option Table)

/-- A failure that leaves the table alone. -/
def refuse (t : Option Table) (r : Result) (error : String) : Outcome :=
  { result := { r with error }, between := t, table := t }

def absent : Except String Readback → Bool
  | .ok out => !out.present
  | .error _ => false

def carries (revision : List UInt8) : Except String Readback → Bool
  | .ok out => out.present && out.sentinelOnly && out.revision = revision
  | .error _ => false

/-- The readback of a rollback finds what was there before. -/
def restored (before : Readback) : Except String Readback → Bool
  | .ok rollback => (!before.present && !rollback.present) ||
    (before.present && rollback.present && rollback.sentinelOnly && before.revision = rollback.revision)
  | .error _ => false

/-- The rest of `flowd_nft_apply_revision` where the apply command was `ok`, or its revision was
    not read back. -/
def rollBack (w : World) (others : Others) (before : Readback) (batch : List Stmt) (ok : Bool)
    (r : Result) (t : Option Table) : Outcome :=
  let r := { r with
    error := if ok then "nft_revision_readback_mismatch" else "nft_apply_failed"
    rolledBack := true }
  if !before.present && !ok && absent (readback w others .failedApply t) then
    { result := { r with rollbackOk := true }, between := t, table := t }
  else if !before.present && !w.ok .rollbackCheck then refuse t r "nft_rollback_validation_failed"
  else
    let t' := exec w.rollsBack batch t
    if w.ok .rollback && restored before (readback w others .rollback t') then
      { result := { r with rollbackOk := true }, between := t, table := t' }
    else
      { result := { r with error := "nft_rollback_verification_failed" }, between := t, table := t' }

/-- The apply command, and what follows it. -/
def install (w : World) (others : Others) (before : Readback) (apply rollback : List Stmt)
    (revision : List UInt8) (r : Result) (t : Option Table) : Outcome :=
  let t := exec w.applies apply t
  let r := { r with applied := w.ok .apply }
  if w.ok .apply && carries revision (readback w others .after t) then
    { result := { r with readbackOk := true }, success := true, between := t, table := t }
  else rollBack w others before rollback (w.ok .apply) r t

/-- `flowd_nft_apply_revision`. -/
def applyRevision (w : World) (others : Others) (revision : List UInt8) (t : Option Table) : Outcome :=
  if !w.ok .access then refuse t {} "nft_binary_unavailable"
  else if !safeToken revision 120 then refuse t {} "invalid_revision"
  else
    let r : Result := { revision }
    if !w.ok .lockPath then refuse t r "nft_lock_path_invalid"
    else if !w.ok .lockOpen then refuse t r "nft_lock_open_failed"
    else if !w.ok .lock then refuse t r (if w.busy then "nft_apply_busy" else "nft_lock_failed")
    else
      match readback w others .before t with
      | .error e => refuse t r (if e = "" then "nft_readback_before_failed" else e)
      | .ok before =>
        let r := { r with previousPresent := before.present, previousRevision := before.revision }
        match writeBatch revision before.present false, writeBatch before.revision true (!before.present) with
        | none, _ => refuse t r "nft_apply_file_write_failed"
        | some _, none =>
          refuse t r (if w.ok .applyFile then "nft_rollback_file_write_failed"
            else "nft_apply_file_write_failed")
        | some apply, some rollback =>
          if !w.ok .applyFile then refuse t r "nft_apply_file_write_failed"
          else if !w.ok .rollbackFile then refuse t r "nft_rollback_file_write_failed"
          else if !w.ok .outputPath then refuse t r "nft_output_path_invalid"
          else if !w.ok .check then refuse t r "nft_isolated_validation_failed"
          else
            let r := { r with validated := true }
            if before.present && !w.ok .rollbackCheck then refuse t r "nft_rollback_validation_failed"
            else install w others before apply rollback revision r t

/-! ### What a readback says -/

variable {w : World} {others : Others} {tag : Tag} {t : Option Table}

theorem isFlowd_tableFields (family name : List UInt8) (comment : Option (List UInt8)) :
    isFlowd (tableFields family name comment) =
      (family = word "inet" && name = FLOWD_NFT_TABLE) := by
  show (decide (some family = some (word "inet")) && decide (some name = some FLOWD_NFT_TABLE)) = _
  simp only [some_inj]

theorem member_tableJson (family name : List UInt8) (comment : Option (List UInt8)) :
    (tableJson family name comment).member (word "table") = some (tableFields family name comment) :=
  rfl

theorem commentRevision_tableFields (family name : List UInt8) (comment : Option (List UInt8)) :
    commentRevision (tableFields family name comment) = comment.bind fun s =>
      if FLOWD_NFT_REVISION_PREFIX.isPrefixOf s then
        some ((s.drop FLOWD_NFT_REVISION_PREFIX.length).take 127)
      else none := by
  cases comment <;> rfl

theorem jsonTablePresent_listTables (others : Others) (t : Option Table) :
    jsonTablePresent (some (listTables others t)) = some t.isSome := by
  have hothers : (others.tables.map fun o => tableJson o.1 o.2 none).any
      (fun entry => (entry.member (word "table")).any isFlowd) = false := by
    rw [List.any_eq_false]
    intro j hj
    obtain ⟨o, ho, rfl⟩ := List.mem_map.mp hj
    rw [member_tableJson, any_some, isFlowd_tableFields, Bool.and_eq_true, decide_eq_true_iff, decide_eq_true_iff]
    exact others.foreign o ho
  show some (List.any (_ :: _ ++ _) _) = _
  rw [cons_append, any_cons, any_append, hothers, Bool.false_or]
  cases t with
  | none => rfl
  | some table =>
    have hmeta : metainfo.member (word "table") = none := rfl
    rw [map_some, toList_some, any_cons, any_nil, member_tableJson, any_some,
      isFlowd_tableFields, hmeta]
    simp

variable {r : List UInt8}

theorem sentinelLoop_obj {tables others : ℕ} (ms : List (List UInt8 × Json)) (rest : List Json) :
    sentinelLoop tables others r (.obj ms :: rest) =
      if (lookup ms (word "metainfo")).isSome then sentinelLoop tables others r rest
      else
        match lookup ms (word "table") with
        | none => sentinelLoop tables (others + 1) r rest
        | some table =>
          if !isFlowd table then .invalid
          else
            match commentRevision table with
            | none => .conflict
            | some r => sentinelLoop (tables + 1) others r rest := rfl

/-- Whatever stands beside the table is counted. -/
theorem sentinelLoop_rest {n : ℕ} {rest : List (List UInt8 × Json)}
    (h : ∀ e ∈ rest, e.1 ≠ word "metainfo" ∧ e.1 ≠ word "table") :
    sentinelLoop 1 n r (rest.map fun e => .obj [e]) =
      if n + rest.length = 0 ∧ r ≠ [] then .revision r else .conflict := by
  induction rest generalizing n with
  | nil =>
    show (if 1 = 1 ∧ n = 0 ∧ r ≠ [] then _ else _) = _
    simp
  | cons e rest ih =>
    obtain ⟨hmeta, htable⟩ := h e mem_cons_self
    have hnone : ∀ k, e.1 ≠ k → lookup [e] k = none := fun k hk => if_neg hk
    rw [map_cons, sentinelLoop_obj, hnone _ hmeta, hnone _ htable]
    show sentinelLoop 1 (n + 1) r _ = _
    rw [ih fun e he => h e (mem_cons_of_mem _ he), length_cons, Nat.add_right_comm]
    rfl

theorem jsonSentinel_listTable {table : Table}
    (h : jsonSentinel (some (listTable table)) = .revision r) :
    ∃ revision, table = sentinel revision ∧ r = revision.take 127 := by
  obtain ⟨comment, rest, hkinds⟩ := table
  have hmeta : lookup [(word "metainfo", (.obj [(word "json_schema_version", .int 1)] : Json))]
      (word "metainfo") = some (.obj [(word "json_schema_version", .int 1)]) := rfl
  have hflowd : isFlowd (tableFields (word "inet") FLOWD_NFT_TABLE comment) = true := by
    rw [isFlowd_tableFields, decide_eq_true rfl, decide_eq_true rfl]
    rfl
  have htable : ∀ x : Json, lookup [(word "table", x)] (word "metainfo") = none ∧
    lookup [(word "table", x)] (word "table") = some x := fun _ => ⟨rfl, rfl⟩
  change sentinelLoop 0 0 [] (metainfo :: tableJson _ _ comment :: rest.map _) = _ at h
  rw [metainfo, sentinelLoop_obj, hmeta, isSome_some, if_pos rfl, tableJson,
    sentinelLoop_obj, (htable _).1, (htable _).2] at h
  simp only [isSome_none, Bool.false_eq_true, if_false, hflowd, Bool.not_true,
    commentRevision_tableFields] at h
  cases comment with
  | none => cases h
  | some c =>
    rw [bind_some] at h
    by_cases hcomment : FLOWD_NFT_REVISION_PREFIX.isPrefixOf c = true
    · rw [if_pos hcomment] at h
      dsimp only at h
      obtain ⟨revision, rfl⟩ := isPrefixOf_iff_prefix.mp hcomment
      rw [sentinelLoop_rest hkinds, drop_left] at h
      split at h
      · next hrest =>
        cases h
        obtain rfl := length_eq_zero_iff.mp ((Nat.zero_add _).symm.trans hrest.1)
        exact ⟨revision, rfl, rfl⟩
      · cases h
    · rw [if_neg hcomment] at h
      cases h

/-- What a readback that succeeds says. -/
structure Told (t : Option Table) (out : Readback) : Prop where
  present : out.present = t.isSome
  revision : ∀ table, t = some table → ∃ revision, table = sentinel revision ∧
    out.revision = revision.take 127

variable {out : Readback}

theorem readback_told (h : readback w others tag t = .ok out) : Told t out := by
  unfold readback at h
  split at h
  · cases h
  split at h
  · cases h
  cases hread : w.ok (.readList tag) with
  | false =>
    rw [hread] at h
    cases h
  | true =>
    rw [hread, if_pos rfl, jsonTablePresent_listTables] at h
    cases t with
    | none =>
      cases h
      exact ⟨rfl, nofun⟩
    | some table =>
      dsimp only [isSome_some] at h
      split at h
      · cases h
      split at h
      · cases h
      cases hshown : w.ok (.readTable tag) with
      | false =>
        rw [hshown] at h
        cases h
      | true =>
        rw [hshown, if_pos rfl, map_some] at h
        split at h
        · cases h
        · cases h
        rename_i r hr
        cases h
        exact ⟨rfl, fun table' ht => by
          cases ht
          exact jsonSentinel_listTable hr⟩

/-- A revision that a batch can hold was not cut off. -/
theorem take_eq (h : (r.take 127).length ≤ 120) : r.take 127 = r := by
  rw [length_take] at h
  exact take_of_length_le (by omega)

theorem safeToken_length {s : List UInt8} {max : ℕ} (h : safeToken s max = true) : s.length ≤ max := by
  unfold safeToken at h
  simp only [Bool.and_eq_true, decide_eq_true_iff] at h
  exact h.1.2

theorem Told.eq_sentinel (h : Told t out) (hpresent : out.present = true)
    (hlen : out.revision.length ≤ 120) : t = some (sentinel out.revision) := by
  obtain ⟨table, rfl⟩ := isSome_iff_exists.mp (h.present.symm.trans hpresent)
  obtain ⟨revision, rfl, heq⟩ := h.revision table rfl
  rw [heq] at hlen ⊢
  rw [take_eq hlen]

theorem Told.eq_none (h : Told t out) (habsent : out.present = false) : t = none :=
  not_isSome_iff_eq_none.mp (by rw [← h.present, habsent]; exact Bool.false_ne_true)

/-! ### Every world -/

/-- A table of flowd, or none. -/
def Owned (t : Option Table) : Prop := ∀ table, t = some table → ∃ revision, table = sentinel revision

/-- What an outcome says of the table that was there before. -/
structure Truthful (revision : List UInt8) (t : Option Table) (o : Outcome) : Prop where
  installed : o.success = true → o.table = some (sentinel revision) ∧ o.result.rolledBack = false
  foreign : ¬ Owned t → o.between = t ∧ o.table = t
  untouched : o.success = false → o.result.rolledBack = false → o.table = t
  restored : o.result.rollbackOk = true → o.success = false ∧ o.result.rolledBack = true ∧ o.table = t

variable {revision : List UInt8} {before : Readback}

theorem refuse_truthful {r : Result} (error : String) (hr : r.rollbackOk = false) :
    Truthful revision t (refuse t r error) :=
  ⟨nofun, fun _ => ⟨rfl, rfl⟩, fun _ _ => rfl, fun h => by cases hr.symm.trans h⟩

theorem Told.owned (h : Told t out) : Owned t := fun table ht =>
  (h.revision table ht).imp fun _ hrevision => hrevision.1

theorem eq_none_of_absent (h : absent (readback w others tag t) = true) : t = none := by
  cases hread : readback w others tag t with
  | error e =>
    rw [hread] at h
    cases h
  | ok out =>
    rw [hread] at h
    exact (readback_told hread).eq_none ((Bool.not_eq_true' _).mp h)

theorem eq_of_carries (hlen : revision.length ≤ 120)
    (h : carries revision (readback w others tag t) = true) : t = some (sentinel revision) := by
  cases hread : readback w others tag t with
  | error e =>
    rw [hread] at h
    cases h
  | ok out =>
    rw [hread] at h
    simp only [carries, Bool.and_eq_true, decide_eq_true_iff] at h
    obtain ⟨⟨hpresent, -⟩, rfl⟩ := h
    exact (readback_told hread).eq_sentinel hpresent hlen

/-- A readback that matches the first one shows the table that was there before. -/
theorem eq_of_restored (hbefore : Told t before)
    (hlen : before.present = true → before.revision.length ≤ 120) {t' : Option Table}
    (h : restored before (readback w others tag t') = true) : t' = t := by
  cases hread : readback w others tag t' with
  | error e =>
    rw [hread] at h
    cases h
  | ok out =>
    rw [hread] at h
    have htold := readback_told hread
    unfold restored at h
    simp only [Bool.or_eq_true, Bool.and_eq_true, Bool.not_eq_true', decide_eq_true_iff] at h
    rcases h with ⟨habsent, habsent'⟩ | ⟨⟨⟨hpresent, hpresent'⟩, -⟩, heq⟩
    · rw [htold.eq_none habsent', hbefore.eq_none habsent]
    · rw [hbefore.eq_sentinel hpresent (hlen hpresent), heq]
      exact htold.eq_sentinel hpresent' (heq ▸ hlen hpresent)

theorem rollBack_truthful (hbefore : Told t before)
    (hlen : before.present = true → before.revision.length ≤ 120) (batch : List Stmt) (ok : Bool)
    {r : Result} (hr : r.rollbackOk = false) (t' : Option Table) :
    Truthful revision t (rollBack w others before batch ok r t') := by
  have hforeign : ∀ {P : Prop}, ¬ Owned t → P := fun h => absurd hbefore.owned h
  unfold rollBack
  dsimp only
  split
  · next habsent =>
    simp only [Bool.and_eq_true, Bool.not_eq_true'] at habsent
    refine ⟨nofun, hforeign, nofun, fun _ => ⟨rfl, rfl, ?_⟩⟩
    rw [eq_none_of_absent habsent.2, hbefore.eq_none habsent.1.1]
  split
  · exact ⟨nofun, hforeign, nofun, fun h => by cases hr.symm.trans h⟩
  split
  · next hrestored =>
    rw [Bool.and_eq_true] at hrestored
    exact ⟨nofun, hforeign, nofun, fun _ => ⟨rfl, rfl, eq_of_restored hbefore hlen hrestored.2⟩⟩
  · exact ⟨nofun, hforeign, nofun, fun h => by cases hr.symm.trans h⟩

theorem install_truthful (hbefore : Told t before)
    (hlen : before.present = true → before.revision.length ≤ 120)
    (hsafe : safeToken revision 120 = true) (apply rollback : List Stmt) {r : Result}
    (hr : r.rollbackOk = false ∧ r.rolledBack = false) :
    Truthful revision t (install w others before apply rollback revision r t) := by
  unfold install
  dsimp only
  split
  · next hafter =>
    rw [Bool.and_eq_true] at hafter
    have htable := eq_of_carries (safeToken_length hsafe) hafter.2
    exact ⟨fun _ => ⟨htable, hr.2⟩, fun h => absurd hbefore.owned h, nofun,
      fun h => by cases hr.1.symm.trans h⟩
  · refine rollBack_truthful hbefore hlen rollback _ ?_ _
    exact hr.1

/-- **The result of an apply is the truth about the table**, whatever the commands did and
    reported. -/
theorem apply_truthful (w : World) (others : Others) (revision : List UInt8) (t : Option Table) :
    Truthful revision t (applyRevision w others revision t) := by
  unfold applyRevision
  dsimp only
  split
  · exact refuse_truthful _ rfl
  split
  · exact refuse_truthful _ rfl
  next hsafe =>
  split
  · exact refuse_truthful _ rfl
  split
  · exact refuse_truthful _ rfl
  split
  · exact refuse_truthful _ rfl
  split
  · exact refuse_truthful _ rfl
  next before hread =>
  have hbefore := readback_told hread
  split
  · exact refuse_truthful _ rfl
  · exact refuse_truthful _ rfl
  next apply rollback _ hrollback =>
  have hlen : before.present = true → before.revision.length ≤ 120 := by
    intro hpresent
    unfold writeBatch at hrollback
    split at hrollback
    · cases hrollback
    rename_i hnot
    simp only [hpresent, Bool.not_true, Bool.not_false, Bool.and_true, Bool.not_eq_true',
      Bool.not_eq_false] at hnot
    exact safeToken_length hnot
  split
  · exact refuse_truthful _ rfl
  split
  · exact refuse_truthful _ rfl
  split
  · exact refuse_truthful _ rfl
  split
  · exact refuse_truthful _ rfl
  split
  · exact refuse_truthful _ rfl
  · refine install_truthful hbefore hlen ?_ apply rollback ⟨rfl, rfl⟩
    rwa [Bool.not_eq_true', Bool.not_eq_false] at hsafe

/-! ### Runs -/

/-- A call: what the world does in it, the other tables, and the revision. -/
structure Apply where
  world : World
  others : Others
  revision : List UInt8

/-- The table behind a run of calls. -/
def tableAfter (t : Option Table) (calls : List Apply) : Option Table :=
  calls.foldl (fun t a => (applyRevision a.world a.others a.revision t).table) t

/-- The table is the one that was there, or that of the revision in place of one of flowd. -/
def OneOf (revision : List UInt8) (t t' : Option Table) : Prop :=
  t' = t ∨ Owned t ∧ t' = some (sentinel revision)

theorem writeBatch_some {replace deleteOnly : Bool} {batch : List Stmt}
    (h : writeBatch revision replace deleteOnly = some batch) :
    (deleteOnly = false → revision.length ≤ 120) ∧
      batch = (if replace || deleteOnly then [.delete] else []) ++
        if deleteOnly then [] else [.create revision] := by
  unfold writeBatch at h
  split at h
  · cases h
  next hsafe =>
    cases h
    refine ⟨fun hd => safeToken_length ?_, rfl⟩
    simpa [hd] using hsafe

theorem install_oneOf (h : Told t before) {apply rollback : List Stmt}
    (happly : writeBatch revision before.present false = some apply)
    (hrollback : writeBatch before.revision true (!before.present) = some rollback) (r : Result) :
    OneOf revision t (install w others before apply rollback revision r t).table := by
  have hpresent := h.present
  have howned := h.owned
  obtain ⟨-, happly⟩ := writeBatch_some happly
  obtain ⟨hlen, hrollback⟩ := writeBatch_some hrollback
  have hold := fun hp => h.eq_sentinel hp (hlen (by rw [hp]; rfl))
  have happlied : OneOf revision t (exec w.applies apply t) := by
    unfold OneOf exec
    cases w.applies <;> cases t <;> simp_all [Stmt.run]
  -- the batch of the rollback deletes the table, and creates the one that was there
  have hback : OneOf revision t (exec w.rollsBack rollback (exec w.applies apply t)) := by
    unfold OneOf exec at *
    cases hp : before.present <;> cases w.rollsBack <;> rcases happlied with he | he <;>
      simp_all [Stmt.run]
  unfold install rollBack
  dsimp only
  split
  · exact happlied
  split
  · exact happlied
  split
  · exact happlied
  split <;> exact hback

theorem apply_oneOf (w : World) (others : Others) (revision : List UInt8) (t : Option Table) :
    OneOf revision t (applyRevision w others revision t).table := by
  unfold applyRevision
  dsimp only
  repeat' split
  any_goals exact .inl rfl
  next hread _ _ _ _ happly hrollback _ _ _ _ _ =>
    exact install_oneOf (readback_told hread) happly hrollback _

/-- **No run leaves anything else behind** than the table that was there, or in place of none or one
    of flowd that of a revision that was asked for, whatever fails and whatever is reported. -/
theorem apply_run (t : Option Table) (calls : List Apply) :
    tableAfter t calls = t ∨
      Owned t ∧ ∃ a ∈ calls, tableAfter t calls = some (sentinel a.revision) := by
  induction calls generalizing t with
  | nil => exact .inl rfl
  | cons a calls ih =>
    have hstep := apply_oneOf a.world a.others a.revision t
    rcases ih (applyRevision a.world a.others a.revision t).table with hsame | ⟨howned, b, hb, heq⟩
    · refine hstep.imp hsame.trans fun h => ⟨h.1, a, mem_cons_self, hsame.trans h.2⟩
    · refine .inr ⟨?_, b, mem_cons_of_mem a hb, heq⟩
      rcases hstep with hkept | hnew
      · rwa [hkept] at howned
      · exact hnew.1

end DreamingOS.Nft
