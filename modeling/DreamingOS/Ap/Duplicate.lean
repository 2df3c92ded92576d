import DreamingOS.Ap.Scan

namespace DreamingOS.Ap

open JsonText List

/-!
# AP control — duplicate keys are found exactly

The scanner against the grammar: on a well-formed text it registers the members of all objects,
each under the number of its object, and stops at the first pair it has already.

* `valueKeys`, `elementsKeys`, `membersKeys` — the keys a tree registers, in the order of the text;
* `nodup_valueKeys` — no key is registered twice iff the names of every object are distinct: the
  numbers of different objects differ;
* `scan_value` — **the scan of a value**, by induction on the tree: it registers the value's keys,
  or reports a duplicate where they clash;
* `duplicateScan_exact` — the report on a whole text, and that no input leaves a decode buffer.
-/

/-! ### The keys of a tree -/

mutual

/-- The keys of a value whose first object gets the number after `n`. -/
def valueKeys : Value → ℕ → List (ℕ × List UInt8)
  | .scalar _, _ | .string _, _ | .emptyArray _, _ | .emptyObject _, _ => []
  | .array es, n => elementsKeys es n
  | .object ms, n => membersKeys (n + 1) ms (n + 1)

def elementsKeys : Elements → ℕ → List (ℕ × List UInt8)
  | .last _ v _, n => valueKeys v n
  | .more _ v _ es, n => valueKeys v n ++ elementsKeys es (n + v.objects.length)

/-- The keys of the members of object `id`, with those of the objects inside them. -/
def membersKeys (id : ℕ) : Members → ℕ → List (ℕ × List UInt8)
  | .last _ name _ _ v _, n => (id, decoded name) :: valueKeys v n
  | .more _ name _ _ v _ ms, n =>
    (id, decoded name) :: (valueKeys v n ++ membersKeys id ms (n + v.objects.length))

end

mutual

theorem length_valueKeys (v : Value) (n : ℕ) : (valueKeys v n).length = keyCount v.objects := by
  cases v with
  | scalar s => rfl
  | string items => rfl
  | emptyArray w => rfl
  | emptyObject w => rfl
  | array es => exact length_elementsKeys es n
  | object ms =>
    rw [valueKeys, length_membersKeys, Value.objects, keyCount_cons]

theorem length_elementsKeys (es : Elements) (n : ℕ) :
    (elementsKeys es n).length = keyCount es.objects := by
  cases es with
  | last w v w' => exact length_valueKeys v n
  | more w v w' es =>
    rw [elementsKeys, length_append, length_valueKeys, length_elementsKeys,
      Elements.objects, keyCount_append]

theorem length_membersKeys (id : ℕ) (ms : Members) (n : ℕ) :
    (membersKeys id ms n).length = ms.names.length + keyCount ms.objects := by
  cases ms with
  | last w name b w' v a =>
    rw [membersKeys, length_cons, length_valueKeys, Members.names, Members.objects,
      length_singleton, Nat.add_comm]
  | more w name b w' v a ms =>
    rw [membersKeys, length_cons, length_append, length_valueKeys, length_membersKeys,
      Members.names, Members.objects, length_cons, keyCount_append]
    omega

end

mutual

/-- The objects of a value are numbered from `n + 1` on. -/
theorem valueKeys_id {v : Value} {n : ℕ} {key : ℕ × List UInt8} (h : key ∈ valueKeys v n) :
    n < key.1 ∧ key.1 ≤ n + v.objects.length := by
  cases v with
  | scalar s => cases h
  | string items => cases h
  | emptyArray w => cases h
  | emptyObject w => cases h
  | array es => exact elementsKeys_id h
  | object ms =>
    rw [Value.objects, length_cons]
    rcases membersKeys_id h with ⟨hid, -⟩ | hid <;> omega

theorem elementsKeys_id {es : Elements} {n : ℕ} {key : ℕ × List UInt8}
    (h : key ∈ elementsKeys es n) : n < key.1 ∧ key.1 ≤ n + es.objects.length := by
  cases es with
  | last w v w' => exact valueKeys_id h
  | more w v w' es =>
    rw [Elements.objects, length_append]
    rcases mem_append.mp h with h | h
    · have := valueKeys_id h
      omega
    · have := elementsKeys_id h
      omega

/-- A key is a member of the object itself, or of an object inside it. -/
theorem membersKeys_id {id : ℕ} {ms : Members} {n : ℕ} {key : ℕ × List UInt8}
    (h : key ∈ membersKeys id ms n) :
    (key.1 = id ∧ key.2 ∈ ms.names.map decoded) ∨ (n < key.1 ∧ key.1 ≤ n + ms.objects.length) := by
  cases ms with
  | last w name b w' v a =>
    rcases mem_cons.mp h with rfl | h
    · exact .inl ⟨rfl, mem_singleton.mpr rfl⟩
    · exact .inr (valueKeys_id h)
  | more w name b w' v a ms =>
    rw [Members.objects, length_append]
    rcases mem_cons.mp h with rfl | h
    · exact .inl ⟨rfl, mem_cons_self⟩
    rcases mem_append.mp h with h | h
    · have := valueKeys_id h
      exact .inr (by omega)
    rcases membersKeys_id h with ⟨hid, hname⟩ | hid
    · exact .inl ⟨hid, mem_cons_of_mem _ hname⟩
    · exact .inr (by omega)

end

/-- Every member of the object is registered under its number. -/
theorem mem_membersKeys {id : ℕ} {ms : Members} {n : ℕ} {name : List UInt8}
    (h : name ∈ ms.names.map decoded) : (id, name) ∈ membersKeys id ms n := by
  match ms with
  | .last _ name' _ _ v _ =>
    obtain rfl := mem_singleton.mp h
    exact mem_cons_self
  | .more _ name' _ _ v _ ms =>
    rcases mem_cons.mp h with rfl | h
    · exact mem_cons_self
    · exact mem_cons_of_mem _ (mem_append.mpr (.inr (mem_membersKeys h)))

mutual

/-- **No key twice iff all names are distinct.**  Two keys with one number are members of one
    object. -/
theorem nodup_valueKeys (v : Value) (n : ℕ) :
    (valueKeys v n).Nodup ↔ ∀ names ∈ v.objects, Distinct names := by
  cases v with
  | scalar s => simp [valueKeys, Value.objects]
  | string items => simp [valueKeys, Value.objects]
  | emptyArray w => simp [valueKeys, Value.objects]
  | emptyObject w => simp [valueKeys, Value.objects, Distinct]
  | array es => exact nodup_elementsKeys es n
  | object ms =>
    rw [Value.objects, forall_mem_cons]
    exact nodup_membersKeys ms (Nat.le_refl _)

theorem nodup_elementsKeys (es : Elements) (n : ℕ) :
    (elementsKeys es n).Nodup ↔ ∀ names ∈ es.objects, Distinct names := by
  cases es with
  | last w v w' => exact nodup_valueKeys v n
  | more w v w' es =>
    have hdisjoint : List.Disjoint (valueKeys v n) (elementsKeys es (n + v.objects.length)) := by
      intro key h h'
      have := valueKeys_id h
      have := elementsKeys_id h'
      omega
    rw [elementsKeys, nodup_append', Elements.objects, forall_mem_append,
      nodup_valueKeys, nodup_elementsKeys]
    exact ⟨fun h => ⟨h.1, h.2.1⟩, fun h => ⟨h.1, h.2, hdisjoint⟩⟩

theorem nodup_membersKeys {id : ℕ} (ms : Members) {n : ℕ} (hid : id ≤ n) :
    (membersKeys id ms n).Nodup ↔ Distinct ms.names ∧ ∀ names ∈ ms.objects, Distinct names := by
  cases ms with
  | last w name b w' v a =>
    have hfresh : (id, decoded name) ∉ valueKeys v n := fun h => by
      have : n < id := (valueKeys_id h).1
      omega
    have hsingle : Distinct [name] := nodup_singleton _
    rw [membersKeys, nodup_cons, nodup_valueKeys]
    exact ⟨fun h => ⟨hsingle, h.2⟩, fun h => ⟨hfresh, h.2⟩⟩
  | more w name b w' v a ms =>
    have hfresh : (id, decoded name) ∉ valueKeys v n := fun h => by
      have : n < id := (valueKeys_id h).1
      omega
    -- behind the value, the number `id` stands for this object only
    have hsame : (id, decoded name) ∈ membersKeys id ms (n + v.objects.length) ↔
        decoded name ∈ ms.names.map decoded := by
      refine ⟨fun h => ?_, mem_membersKeys⟩
      rcases membersKeys_id h with ⟨-, hname⟩ | hlater
      · exact hname
      · have : n + v.objects.length < id := hlater.1
        omega
    have hdisjoint : List.Disjoint (valueKeys v n)
        (membersKeys id ms (n + v.objects.length)) := by
      intro key h h'
      have := valueKeys_id h
      rcases membersKeys_id h' with ⟨heq, -⟩ | hlater <;> omega
    have hnames : Distinct (name :: ms.names) ↔
        decoded name ∉ ms.names.map decoded ∧ Distinct ms.names := nodup_cons
    rw [membersKeys, nodup_cons, mem_append, hsame, nodup_append', Members.names,
      Members.objects, forall_mem_append, nodup_valueKeys,
      nodup_membersKeys ms (Nat.le_add_right_of_le hid), hnames]
    constructor
    · rintro ⟨hnew, hvalue, ⟨hrest, hinner⟩, -⟩
      exact ⟨⟨fun h => hnew (.inr h), hrest⟩, hvalue, hinner⟩
    · rintro ⟨⟨hnew, hrest⟩, hvalue, hinner⟩
      exact ⟨fun h => h.elim hfresh hnew, hvalue, ⟨hrest, hinner⟩, hdisjoint⟩

end

/-! ### The scan of a tree -/

/-- What the scan of a tree leaves behind: `count` objects are numbered and `keys` registered; the
    nesting is the one before. -/
def Scan.advance (s : Scan) (count : ℕ) (keys : List (ℕ × List UInt8)) : Scan :=
  { s with
    nextObjectId := s.nextObjectId + count
    keys := s.keys ++ keys }

@[simp] theorem Scan.advance_current (s : Scan) (count : ℕ) (keys : List (ℕ × List UInt8)) :
    (s.advance count keys).current = s.current := rfl

@[simp] theorem Scan.advance_zero (s : Scan) : s.advance 0 [] = s := by
  simp [Scan.advance]

theorem Scan.advance_advance (s : Scan) (m n : ℕ) (keys keys' : List (ℕ × List UInt8)) :
    (s.advance m keys).advance n keys' = s.advance (m + n) (keys ++ keys') := by
  simp [Scan.advance, Nat.add_assoc]

/-- A tree of this depth, with so many objects and keys, is within the limits of the scan. -/
structure Fits (s : Scan) (depth objects keys : ℕ) : Prop where
  depth_le : s.depth + depth ≤ depthMax
  nested : s.objects.length ≤ s.depth
  ids : s.nextObjectId + objects < 2 ^ 32
  room : s.keys.length + keys ≤ s.keyCapacity

/-- The scan answers a tree with a duplicate, or goes on behind it. -/
def Answers (s : Scan) (text rest : List UInt8) (objects : ℕ)
    (keys : List (ℕ × List UInt8)) : Prop :=
  scan (text ++ rest) s =
    if (s.keys ++ keys).Nodup then scan rest (s.advance objects keys) else .ok .duplicateKey

theorem Fits.mono {s : Scan} {d d' o o' k k' : ℕ} (h : Fits s d o k) (hd : d' ≤ d) (ho : o' ≤ o)
    (hk : k' ≤ k) : Fits s d' o' k' where
  depth_le := by have := h.depth_le; omega
  nested := h.nested
  ids := by have := h.ids; omega
  room := by have := h.room; omega

/-- Behind a first part, the limits hold for the second. -/
theorem Fits.advance {s : Scan} {d o o' k : ℕ} {keys : List (ℕ × List UInt8)}
    (h : Fits s d (o + o') (keys.length + k)) : Fits (s.advance o keys) d o' k where
  depth_le := h.depth_le
  nested := h.nested
  ids := by
    show s.nextObjectId + o + o' < 2 ^ 32
    have := h.ids
    omega
  room := by
    show (s.keys ++ keys).length + k ≤ s.keyCapacity
    have := h.room
    rw [length_append]
    omega

theorem Fits.depth_lt {s : Scan} {d o k : ℕ} (h : Fits s (d + 1) o k) : s.depth < depthMax := by
  have := h.depth_le
  omega

theorem Fits.openArray {s : Scan} {d o k : ℕ} (h : Fits s (d + 1) o k) :
    Fits s.openArray d o k where
  depth_le := by
    show s.depth + 1 + d ≤ depthMax
    have := h.depth_le
    omega
  nested := Nat.le_succ_of_le h.nested
  ids := h.ids
  room := h.room

theorem Fits.openObject {s : Scan} {d o k : ℕ} (h : Fits s (d + 1) (o + 1) k) :
    s.openObject.nextObjectId = s.nextObjectId + 1 ∧ Fits s.openObject d o k := by
  have hid : s.openObject.nextObjectId = s.nextObjectId + 1 := by
    have := h.ids
    exact Nat.mod_eq_of_lt (by omega)
  refine ⟨hid, ?_, ?_, ?_, h.room⟩
  · show s.depth + 1 + d ≤ depthMax
    have := h.depth_le
    omega
  · exact Nat.succ_le_succ h.nested
  · rw [hid]
    have := h.ids
    omega

theorem openObject_current (s : Scan) : s.openObject.current = some s.openObject.nextObjectId := by
  simp [Scan.current, Scan.openObject]

/-- Closing what was opened restores the nesting. -/
theorem close_openObject {s : Scan} (hid : s.openObject.nextObjectId = s.nextObjectId + 1)
    (count : ℕ) (keys : List (ℕ × List UInt8)) :
    (s.openObject.advance count keys).close 0x7d = s.advance (count + 1) keys := by
  have hcurrent : (s.openObject.advance count keys).current.isSome = true := by
    rw [Scan.advance_current, openObject_current]
    rfl
  have hcount : s.openObject.nextObjectId + count = s.nextObjectId + (count + 1) := by omega
  rw [Scan.close, if_pos ⟨rfl, hcurrent⟩]
  simp only [Scan.advance, hcount]
  rfl

theorem close_openArray (s : Scan) (count : ℕ) (keys : List (ℕ × List UInt8)) :
    (s.openArray.advance count keys).close 0x5d = s.advance count keys := by
  rw [Scan.close, if_neg (fun h => absurd h.1 (by decide))]
  rfl

@[simp] theorem isObjectKey_space (w : Space) (data : List UInt8) :
    isObjectKey (w.1 ++ data) = isObjectKey data := by
  obtain ⟨w, hw⟩ := w
  induction w with
  | nil => rfl
  | cons b w ih =>
    have hb : b = 0x20 ∨ b = 0x09 ∨ b = 0x0d ∨ b = 0x0a := by
      have := hw b mem_cons_self
      simp only [isSpace, Bool.or_eq_true, beq_iff_eq] at this
      tauto
    show isObjectKey (b :: (w ++ data)) = _
    rw [isObjectKey, if_pos hb]
    exact ih fun c hc => hw c (mem_cons_of_mem _ hc)

/-- A string that no colon follows registers nothing. -/
theorem string_of_not_key {data : List UInt8} (h : isObjectKey data = false) (s : Scan)
    (value : List UInt8) : s.string value data = .ok s := by
  unfold Scan.string
  cases s.current with
  | none => rfl
  | some id =>
    show (if _ then _ else _) = _
    rw [h]
    rfl

/-- Two parts in a row. -/
theorem Answers.append {s : Scan} {text text' rest : List UInt8} {o o' : ℕ}
    {keys keys' : List (ℕ × List UInt8)} (h : Answers s text (text' ++ rest) o keys)
    (h' : (s.keys ++ keys).Nodup → Answers (s.advance o keys) text' rest o' keys') :
    Answers s (text ++ text') rest (o + o') (keys ++ keys') := by
  unfold Answers at h ⊢
  rw [append_assoc, h, ← append_assoc]
  by_cases hnodup : (s.keys ++ keys).Nodup
  · have hrest := h' hnodup
    rw [if_pos hnodup]
    rw [Answers, Scan.advance_advance] at hrest
    exact hrest
  · have hall : ¬ (s.keys ++ keys ++ keys').Nodup := fun hnd => hnodup hnd.of_append_left
    rw [if_neg hnodup, if_neg hall]

theorem answers_plain {s : Scan} (hkeys : s.keys.Nodup) {text : List UInt8}
    (hplain : ∀ b ∈ text, isStructural b = false) (rest : List UInt8) :
    Answers s text rest 0 [] := by
  rw [Answers, scan_plain hplain, append_nil, if_pos hkeys, Scan.advance_zero]

theorem answers_space {s : Scan} (hkeys : s.keys.Nodup) (w : Space) (rest : List UInt8) :
    Answers s w.1 rest 0 [] :=
  answers_plain hkeys (fun b hb => isStructural_of_isSpace (w.2 b hb)) rest

/-- Whitespace around a part changes nothing. -/
theorem Answers.spaced {s : Scan} {text rest : List UInt8} {o : ℕ}
    {keys : List (ℕ × List UInt8)} (hkeys : s.keys.Nodup) (w w' : Space)
    (h : Answers s text (w'.1 ++ rest) o keys) :
    Answers s (w.1 ++ text ++ w'.1) rest o keys := by
  have hleft := (answers_space hkeys w _).append fun _ => by
    rw [Scan.advance_zero]
    exact h
  have hboth := hleft.append fun hnd => answers_space hnd w' rest
  rw [Nat.zero_add, Nat.add_zero, nil_append, append_nil] at hboth
  exact hboth

/-- A name is registered under the current object, or found there. -/
theorem answers_name {s : Scan} {id : ℕ} {items : List Item} (hkeys : s.keys.Nodup)
    (hcurrent : s.current = some id) (hname : (resolve items).isSome = true)
    (hroom : s.keys.length < s.keyCapacity) (between : Space) (rest : List UInt8) :
    Answers s (renderString items ++ (between.1 ++ [0x3a])) rest 0 [(id, decoded items)] := by
  obtain ⟨name, hresolve⟩ := Option.isSome_iff_exists.mp hname
  have hdecoded : decoded items = name := by rw [decoded, hresolve]; rfl
  have htext : renderString items ++ (between.1 ++ [0x3a]) ++ rest =
      renderString items ++ (between.1 ++ 0x3a :: rest) := by
    simp
  have hkey : isObjectKey (between.1 ++ 0x3a :: rest) = true := by
    rw [isObjectKey_space]
    rfl
  have hany : (s.keys.any fun key => key.1 = id ∧ key.2 = name) = true ↔ (id, name) ∈ s.keys := by
    simp only [List.any_eq_true, decide_eq_true_eq]
    constructor
    · rintro ⟨⟨i, x⟩, hmem, rfl, rfl⟩
      exact hmem
    · exact fun h => ⟨_, h, rfl, rfl⟩
  have hnodup : (s.keys ++ [(id, name)]).Nodup ↔ (id, name) ∉ s.keys := by
    rw [nodup_append_comm]
    exact ⟨fun h => (nodup_cons.mp h).1, fun h => nodup_cons.mpr ⟨h, hkeys⟩⟩
  rw [Answers, htext, scan_string hresolve, Scan.string, hcurrent, hdecoded]
  dsimp only
  rw [if_pos hkey, keyAdd, if_neg (by omega)]
  by_cases hmem : (id, name) ∈ s.keys
  · rw [if_pos (hany.mpr hmem), if_neg (fun h => hnodup.mp h hmem)]
  rw [if_neg (fun h => hmem (hany.mp h)), if_pos (hnodup.mpr hmem)]
  dsimp only
  rw [scan_space, scan_plain_byte (by decide)]
  rfl

/-- A member: its name, and behind the colon its value. -/
theorem Answers.member {s : Scan} {id : ℕ} {items : List Item} (hkeys : s.keys.Nodup)
    (hcurrent : s.current = some id) (hname : (resolve items).isSome = true)
    (hroom : s.keys.length < s.keyCapacity) (before between before' after : Space)
    {text rest : List UInt8} {o : ℕ} {keys : List (ℕ × List UInt8)}
    (h : (s.keys ++ [(id, decoded items)]).Nodup →
      Answers (s.advance 0 [(id, decoded items)]) text (after.1 ++ rest) o keys) :
    Answers s (before.1 ++ renderString items ++ between.1 ++
      0x3a :: (before'.1 ++ text ++ after.1)) rest o ((id, decoded items) :: keys) := by
  have hnamed := (answers_space hkeys before _).append fun _ => by
    rw [Scan.advance_zero]
    exact answers_name hkeys hcurrent hname hroom between (before'.1 ++ text ++ after.1 ++ rest)
  have hall := hnamed.append fun hnd => (h hnd).spaced hnd before' after
  rw [Nat.zero_add, nil_append, singleton_append] at hall
  have htext : before.1 ++ (renderString items ++ (between.1 ++ [0x3a])) ++
      (before'.1 ++ text ++ after.1) = before.1 ++ renderString items ++ between.1 ++
        0x3a :: (before'.1 ++ text ++ after.1) := by
    simp
  rw [htext] at hall
  exact hall

mutual

/-- **The scan of a value**, wherever it stands in a text. -/
theorem scan_value (v : Value) {s : Scan} {rest : List UInt8}
    (hfits : Fits s v.depth v.objects.length (keyCount v.objects)) (hres : Resolves v.strings)
    (hkeys : s.keys.Nodup) (hrest : isObjectKey rest = false) :
    Answers s v.render rest v.objects.length (valueKeys v s.nextObjectId) := by
  cases v with
  | scalar t => exact answers_plain hkeys t.plain rest
  | string items =>
    obtain ⟨name, hname⟩ := Option.isSome_iff_exists.mp (hres items mem_cons_self)
    show scan (renderString items ++ rest) s = if (s.keys ++ []).Nodup then _ else _
    rw [scan_string hname, string_of_not_key hrest, append_nil, if_pos hkeys]
    exact congrArg _ s.advance_zero.symm
  | emptyArray w =>
    have hclose := close_openArray s 0 []
    rw [Scan.advance_zero] at hclose
    show scan (0x5b :: (w.1 ++ [0x5d] ++ rest)) s = if (s.keys ++ []).Nodup then _ else _
    rw [scan_openArray hfits.depth_lt, append_assoc, scan_space, singleton_append,
      scan_close (.inr rfl) (Nat.succ_pos _), hclose, append_nil, if_pos hkeys]
    rfl
  | emptyObject w =>
    obtain ⟨hid, -⟩ := hfits.openObject
    have hclose := close_openObject hid 0 []
    rw [Scan.advance_zero] at hclose
    have hobjects := Nat.lt_of_le_of_lt hfits.nested hfits.depth_lt
    show scan (0x7b :: (w.1 ++ [0x7d] ++ rest)) s = if (s.keys ++ []).Nodup then _ else _
    rw [scan_openObject hfits.depth_lt hobjects, append_assoc, scan_space,
      singleton_append, scan_close (.inl rfl) (Nat.succ_pos _), hclose, append_nil,
      if_pos hkeys]
    rfl
  | array es =>
    have hinner := @scan_elements es _ (0x5d :: rest) hfits.openArray hres hkeys rfl
    show scan (0x5b :: (es.render ++ [0x5d] ++ rest)) s = _
    rw [scan_openArray hfits.depth_lt, append_assoc, singleton_append, hinner,
      scan_close (.inr rfl) (Nat.succ_pos _), close_openArray]
    rfl
  | object ms =>
    have hfits' : Fits s (ms.depth + 1) (ms.objects.length + 1)
        (ms.names.length + keyCount ms.objects) := by
      have h := hfits
      rw [Value.objects, length_cons, keyCount_cons] at h
      exact h
    obtain ⟨hid, hopen⟩ := hfits'.openObject
    have hobjects := Nat.lt_of_le_of_lt hfits.nested hfits.depth_lt
    have hinner := @scan_members ms _ _ (0x7d :: rest) hopen hres hkeys (openObject_current s) rfl
    show scan (0x7b :: (ms.render ++ [0x7d] ++ rest)) s = _
    rw [scan_openObject hfits.depth_lt hobjects, append_assoc, singleton_append, hinner,
      scan_close (.inl rfl) (Nat.succ_pos _), close_openObject hid, hid]
    rfl

theorem scan_elements (es : Elements) {s : Scan} {rest : List UInt8}
    (hfits : Fits s es.depth es.objects.length (keyCount es.objects)) (hres : Resolves es.strings)
    (hkeys : s.keys.Nodup) (hrest : isObjectKey rest = false) :
    Answers s es.render rest es.objects.length (elementsKeys es s.nextObjectId) := by
  cases es with
  | last w v w' =>
    have hafter : isObjectKey (w'.1 ++ rest) = false := by rw [isObjectKey_space, hrest]
    exact (scan_value v hfits hres hkeys hafter).spaced hkeys w w'
  | more w v w' es =>
    rw [Elements.objects, length_append, keyCount_append] at hfits
    obtain ⟨hresv, hrese⟩ := resolves_append.mp hres
    have hcomma : isObjectKey (w'.1 ++ (0x2c :: es.render ++ rest)) = false := by
      rw [isObjectKey_space]
      rfl
    have hvalue := scan_value v (hfits.mono (Nat.le_max_left _ _) (Nat.le_add_right _ _)
      (Nat.le_add_right _ _)) hresv hkeys hcomma
    have helements : (s.keys ++ valueKeys v s.nextObjectId).Nodup →
        Answers (s.advance v.objects.length (valueKeys v s.nextObjectId)) es.render rest
          es.objects.length (elementsKeys es (s.nextObjectId + v.objects.length)) := fun hnd => by
      rw [← length_valueKeys v s.nextObjectId] at hfits
      exact scan_elements es (hfits.advance.mono (Nat.le_max_right _ _) (Nat.le_refl _)
        (Nat.le_refl _)) hrese hnd hrest
    have hcommas : (s.keys ++ valueKeys v s.nextObjectId).Nodup →
        Answers (s.advance v.objects.length (valueKeys v s.nextObjectId)) (0x2c :: es.render) rest
          es.objects.length (elementsKeys es (s.nextObjectId + v.objects.length)) := fun hnd => by
      rw [Answers, cons_append, scan_plain_byte (by decide)]
      exact helements hnd
    have hall := (hvalue.spaced hkeys w w').append hcommas
    rw [Elements.objects, length_append]
    exact hall

theorem scan_members (ms : Members) {s : Scan} {id : ℕ} {rest : List UInt8}
    (hfits : Fits s ms.depth ms.objects.length (ms.names.length + keyCount ms.objects))
    (hres : Resolves ms.strings) (hkeys : s.keys.Nodup) (hcurrent : s.current = some id)
    (hrest : isObjectKey rest = false) :
    Answers s ms.render rest ms.objects.length (membersKeys id ms s.nextObjectId) := by
  cases ms with
  | last w name b w' v a =>
    obtain ⟨hname, hresv⟩ := resolves_cons.mp hres
    have hafter : isObjectKey (a.1 ++ rest) = false := by rw [isObjectKey_space, hrest]
    have hroom : s.keys.length < s.keyCapacity := by
      have h : s.keys.length + (1 + keyCount v.objects) ≤ s.keyCapacity := hfits.room
      omega
    have hfits' : Fits s v.depth (0 + v.objects.length)
        ([(id, decoded name)].length + keyCount v.objects) :=
      hfits.mono (Nat.le_refl _) (Nat.le_of_eq (Nat.zero_add _)) (Nat.le_refl _)
    exact Answers.member hkeys hcurrent hname hroom w b w' a fun hnd =>
      scan_value v hfits'.advance hresv hnd hafter
  | more w name b w' v a ms =>
    obtain ⟨hname, hres⟩ := resolves_cons.mp hres
    obtain ⟨hresv, hresm⟩ := resolves_append.mp hres
    rw [Members.objects, length_append, keyCount_append, Members.names, length_cons] at hfits
    have hroom : s.keys.length < s.keyCapacity := by
      have := hfits.room
      omega
    have hfitsv : Fits s v.depth (0 + v.objects.length)
        ([(id, decoded name)].length + keyCount v.objects) :=
      hfits.mono (Nat.le_max_left _ _) (by omega) (by simp only [length_singleton]; omega)
    have hcomma : isObjectKey (a.1 ++ (0x2c :: ms.render ++ rest)) = false := by
      rw [isObjectKey_space]
      rfl
    have hmember := Answers.member hkeys hcurrent hname hroom w b w' a fun hnd =>
      scan_value v hfitsv.advance hresv hnd hcomma
    -- the members behind the comma, in the state the first one leaves
    have hfitsm : Fits s ms.depth (v.objects.length + ms.objects.length)
        (((id, decoded name) :: valueKeys v s.nextObjectId).length +
          (ms.names.length + keyCount ms.objects)) := by
      refine hfits.mono (Nat.le_max_right _ _) (Nat.le_refl _) ?_
      rw [length_cons, length_valueKeys]
      omega
    have hmembers : (s.keys ++ (id, decoded name) :: valueKeys v s.nextObjectId).Nodup →
        Answers (s.advance v.objects.length ((id, decoded name) :: valueKeys v s.nextObjectId))
          (0x2c :: ms.render) rest ms.objects.length
          (membersKeys id ms (s.nextObjectId + v.objects.length)) := fun hnd => by
      rw [Answers, cons_append, scan_plain_byte (by decide)]
      exact scan_members ms hfitsm.advance hresm hnd hcurrent hrest
    have hall := hmember.append hmembers
    have htext : w.1 ++ renderString name ++ b.1 ++ 0x3a :: (w'.1 ++ v.render ++ a.1) ++
        0x2c :: ms.render = (Members.more w name b w' v a ms).render := by
      simp [Members.render]
    rw [htext] at hall
    rw [Members.objects, length_append]
    exact hall

end

/-! ### Whole texts -/

/-- The table holds every key of a text that is no longer than a frame and has no more keys than
    the limit. -/
theorem keyCount_le_capacityFor {t : Text} (hlen : t.render.length ≤ frameMax)
    (hkeys : keyCount t.value.objects ≤ keysMax) :
    keyCount t.value.objects ≤ capacityFor t.render.length := by
  have hfour := t.value.four_mul_keyCount
  have hvalue : t.value.render.length ≤ t.render.length := by
    simp only [Text.render, length_append]
    omega
  unfold frameMax at hlen
  unfold capacityFor
  rw [Nat.mod_eq_of_lt (by omega)]
  dsimp only
  split <;> omega

/-- The scan of a whole text within the limits. -/
theorem duplicateScan_render {t : Text} (hlen : t.render.length ≤ frameMax)
    (hdepth : t.value.depth ≤ depthMax) (hkeys : keyCount t.value.objects ≤ keysMax)
    (hres : Resolves t.value.strings) :
    duplicateScan t.render = .ok (if t.HasDuplicate then .duplicateKey else .ok) := by
  have hobjects := t.value.length_objects_le
  have hvalue : t.value.render.length ≤ t.render.length := by
    simp only [Text.render, length_append]
    omega
  have hfits : Fits (Scan.start t.render.length) t.value.depth t.value.objects.length
      (keyCount t.value.objects) :=
    { depth_le := by
        show 0 + t.value.depth ≤ depthMax
        omega
      nested := Nat.le_refl _
      ids := by
        show 0 + t.value.objects.length < 2 ^ 32
        unfold frameMax at hlen
        omega
      room := by
        show 0 + keyCount t.value.objects ≤ capacityFor t.render.length
        rw [Nat.zero_add]
        exact keyCount_le_capacityFor hlen hkeys }
  have hend : isObjectKey (t.after.1 ++ []) = false := by
    rw [isObjectKey_space]
    rfl
  have hanswers := (scan_value t.value hfits hres nodup_nil hend).spaced nodup_nil
    t.before t.after
  have hnodup : ([] ++ valueKeys t.value 0).Nodup ↔ ¬ t.HasDuplicate := by
    rw [nil_append, nodup_valueKeys, Text.HasDuplicate]
    push Not
    exact Iff.rfl
  show scan t.render _ = _
  rw [Answers, append_nil] at hanswers
  refine Eq.trans hanswers ?_
  show (if ([] ++ valueKeys t.value 0).Nodup then _ else _) = _
  by_cases hdup : t.HasDuplicate
  · rw [if_neg (fun h => hnodup.mp h hdup), if_pos hdup]
  · rw [if_pos (hnodup.mpr hdup), if_neg hdup]
    rfl

/-- **Duplicate keys are found exactly.**  A well-formed text within the limits of the scanner, in
    which every surrogate escape is half of a pair, is reported iff some object in it has two
    members of one decoded name, and passed otherwise; and no byte string at all makes the scanner
    write past a decode buffer or run on. -/
theorem duplicateScan_exact : (∀ t : Text, t.render.length ≤ frameMax → t.value.depth ≤ depthMax →
      keyCount t.value.objects ≤ keysMax → Resolves t.value.strings →
      (duplicateScan t.render = .ok .duplicateKey ↔ t.HasDuplicate) ∧
        (duplicateScan t.render = .ok .ok ↔ ¬ t.HasDuplicate)) ∧
      ∀ data : List UInt8, ∃ code, duplicateScan data = .ok code := by
  refine ⟨fun t hlen hdepth hkeys hres => ?_, duplicateScan_safe⟩
  rw [duplicateScan_render hlen hdepth hkeys hres]
  by_cases hdup : t.HasDuplicate
  · simp [hdup]
  · simp [hdup]

def noSpace : Space := ⟨[], forall_mem_nil _⟩

/-- The number `0`. -/
def zero : Value := .scalar (.number ⟨false, ⟨0x30, [], by decide +kernel⟩, fun _ => rfl, none, none⟩)

/-- `{"b":0}`. -/
def innerObject : Value :=
  .object (.last noSpace [.raw 0x62 (by decide)] noSpace noSpace zero noSpace)

/-- `{"a":{"b":0},"\u0061":[{"b":0}]}`: one name spelt in two ways, and one in two objects. -/
def doubledText : Text where
  before := noSpace
  value := .object
    (.more noSpace [.raw 0x61 (by decide)] noSpace noSpace innerObject noSpace
      (.last noSpace [.unicode ⟨0x30, rfl⟩ ⟨0x30, rfl⟩ ⟨0x36, rfl⟩ ⟨0x31, rfl⟩] noSpace noSpace
        (.array (.last noSpace innerObject noSpace)) noSpace))
  after := noSpace

theorem doubledText_reported : duplicateScan doubledText.render = .ok .duplicateKey := by
  have hexact := duplicateScan_exact.1 doubledText (by decide) (by decide) (by decide)
    (by decide +kernel)
  exact hexact.1.mpr (by decide +kernel)

/-- `"\uD800"`: in the grammar, but the escape is only half of a pair. -/
def loneText : Text where
  before := noSpace
  value := .string [.unicode ⟨0x44, rfl⟩ ⟨0x38, rfl⟩ ⟨0x30, rfl⟩ ⟨0x30, rfl⟩]
  after := noSpace

/-- A text whose escapes stand for no character is refused as malformed. -/
theorem loneText_refused : ¬ ∀ t : Text, t.render.length ≤ frameMax → t.value.depth ≤ depthMax →
      keyCount t.value.objects ≤ keysMax →
      (duplicateScan t.render = .ok .duplicateKey ↔ t.HasDuplicate) ∧
        (duplicateScan t.render = .ok .ok ↔ ¬ t.HasDuplicate) := by
  intro h
  have hpassed := (h loneText (by decide) (by decide) (by decide)).2.mpr (by decide)
  have hrefused : duplicateScan loneText.render = .ok .invalidJson := by decide +kernel
  rw [hrefused] at hpassed
  cases hpassed

end DreamingOS.Ap
