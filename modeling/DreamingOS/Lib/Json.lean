import Mathlib.Algebra.Group.Int.Defs
import Mathlib.Data.List.TakeWhile

/-!
# JSON values

Values as a library holds them in memory: integers and doubles are two types, and the members of
an object are in the order they were added.

* `Json.lookup`, `Json.set` — a member of an object, and a member added to it or replaced;
* `Json.equal` — deep equality: numbers of the two types are never equal, the order of the members
  does not matter;
* `cstr`, `utf8` — the text of a string up to its first zero character, and its bytes;
* `JsonC` — the texts and the numbers of the library, as parameters;
* `Json.Respelled` — a value behind a print and a parse: doubles may have become integers.
-/

/-- A JSON value with doubles from `D`. -/
inductive Json (D : Type) where
  | null
  | bool (b : Bool)
  | int (n : ℤ)
  | double (d : D)
  | str (s : String)
  | arr (items : List (Json D))
  | obj (members : List (String × Json D))

/-- A C string ends at its first zero character. -/
def cstr (s : String) : String := String.ofList (s.toList.takeWhile (· ≠ '\x00'))

/-- The bytes of a string. -/
def utf8 (s : String) : List UInt8 := s.toList.flatMap String.utf8EncodeChar

@[simp] theorem cstr_cstr (s : String) : cstr (cstr s) = cstr s := by
  unfold cstr
  rw [String.toList_ofList, List.takeWhile_idem]

namespace Json

variable {D : Type}

/-! ### The members of an object -/

/-- The member of a name. -/
def lookup : List (String × Json D) → String → Option (Json D)
  | [], _ => none
  | (k, v) :: ms, key => if k = key then some v else lookup ms key

/-- A member added at the end, or given a new value in its place. -/
def set : List (String × Json D) → String → Json D → List (String × Json D)
  | [], key, value => [(key, value)]
  | (k, v) :: ms, key, value =>
    if k = key then (k, value) :: ms else (k, v) :: set ms key value

theorem lookup_set (ms : List (String × Json D)) (key q : String) (value : Json D) :
    lookup (set ms key value) q = if key = q then some value else lookup ms q := by
  induction ms with
  | nil => rfl
  | cons m ms ih =>
    obtain ⟨k, v⟩ := m
    unfold set
    split
    · next hk =>
      subst hk
      show (if k = q then some value else lookup ms q) = _
      split
      · rfl
      rename_i hq
      show lookup ms q = if k = q then some v else lookup ms q
      rw [if_neg hq]
    · next hk =>
      show (if k = q then some v else lookup (set ms key value) q) = _
      rw [ih]
      by_cases hkq : k = q
      · have hne : key ≠ q := fun h => hk (hkq.trans h.symm)
        simp [lookup, hkq, hne]
      · simp [lookup, hkq]

theorem lookup_append (ms ns : List (String × Json D)) (key : String) :
    lookup (ms ++ ns) key = (lookup ms key).or (lookup ns key) := by
  induction ms with
  | nil => simp [lookup]
  | cons m ms ih =>
    obtain ⟨k, v⟩ := m
    show (if k = key then some v else lookup (ms ++ ns) key) = _
    rw [ih]
    show _ = Option.or (if k = key then some v else lookup ms key) _
    split <;> rfl

variable {key : String}

theorem lookup_eq_none {ms : List (String × Json D)}
    (h : key ∉ ms.map Prod.fst) : lookup ms key = none := by
  induction ms with
  | nil => rfl
  | cons m ms ih =>
    obtain ⟨k, v⟩ := m
    rw [List.map_cons, List.mem_cons, not_or] at h
    show (if k = key then some v else lookup ms key) = none
    rw [if_neg fun hk => h.1 hk.symm]
    exact ih h.2

/-- `json_object_object_get_ex`: only an object has members. -/
def member (o : Json D) (key : String) : Option (Json D) :=
  match o with
  | .obj ms => lookup ms key
  | _ => none

/-- A member that is there and is not `null`, which is the null pointer in C. -/
def get (o : Json D) (key : String) : Option (Json D) :=
  match o.member key with
  | some .null => none
  | v => v

/-- `json_object_object_add`. -/
def add (o : Json D) (key : String) (value : Json D) : Json D :=
  match o with
  | .obj ms => .obj (set ms key value)
  | o => o

/-- The members of the second list added to the first, one by one. -/
def setAll (ms ns : List (String × Json D)) : List (String × Json D) :=
  ns.foldl (fun ms n => set ms n.1 n.2) ms

theorem lookup_setAll {ms ns : List (String × Json D)}
    (h : key ∉ ns.map Prod.fst) : lookup (setAll ms ns) key = lookup ms key := by
  induction ns generalizing ms with
  | nil => rfl
  | cons n ns ih =>
    rw [List.map_cons, List.mem_cons, not_or] at h
    show lookup (setAll (set ms n.1 n.2) ns) key = _
    rw [ih h.2, lookup_set, if_neg fun hn => h.1 hn.symm]

def isObject : Json D → Bool
  | .obj _ => true
  | _ => false

/-- The items of an array. -/
def items : Json D → Option (List (Json D))
  | .arr items => some items
  | _ => none

/-! ### Equality -/

mutual

/-- `json_object_equal`, with the equality of doubles as a parameter. -/
def equal (eq : D → D → Bool) : Json D → Json D → Bool
  | .null, .null => true
  | .bool a, .bool b => a == b
  | .int a, .int b => a == b
  | .double a, .double b => eq a b
  | .str a, .str b => a == b
  | .arr xs, .arr ys => equalItems eq xs ys
  | .obj ms, .obj ns => equalMembers eq ms ns && ns.all fun n => (lookup ms n.1).isSome
  | _, _ => false

def equalItems (eq : D → D → Bool) : List (Json D) → List (Json D) → Bool
  | [], [] => true
  | x :: xs, y :: ys => equal eq x y && equalItems eq xs ys
  | _, _ => false

def equalMembers (eq : D → D → Bool) : List (String × Json D) → List (String × Json D) → Bool
  | [], _ => true
  | (k, v) :: ms, ns =>
    (match lookup ns k with
      | some w => equal eq v w
      | none => false) && equalMembers eq ms ns

end

end Json

/-! ### Texts and numbers -/

/-- What a JSON library does with texts and with doubles. -/
structure JsonC (D : Type) where
  /-- The text without blanks. -/
  print : Json D → List UInt8
  /-- The text with a blank behind every separator. -/
  printSpaced : Json D → List UInt8
  parse : List UInt8 → Option (Json D)
  /-- The integer a text starts with, 0 where it starts with none. -/
  parseInt : String → ℤ
  ofInt : ℤ → D
  toInt : D → ℤ
  (isZero isFinite : D → Bool)
  (eq le lt : D → D → Bool)

namespace JsonC

variable {D : Type}

/-- The nearest value of a 32-bit integer. -/
def clamp32 (n : ℤ) : ℤ := max (-(2 ^ 31)) (min n (2 ^ 31 - 1))

/-- `json_object_get_int`. -/
def getInt (c : JsonC D) : Json D → ℤ
  | .bool b => if b then 1 else 0
  | .int n => clamp32 n
  | .double d => clamp32 (c.toInt d)
  | .str s => clamp32 (c.parseInt s)
  | _ => 0

/-- `json_object_get_boolean`. -/
def getBool (c : JsonC D) : Json D → Bool
  | .bool b => b
  | .int n => n ≠ 0
  | .double d => !c.isZero d
  | .str s => s ≠ ""
  | _ => false

/-- An integer or a double, as a double; nothing else is a number. -/
def number (c : JsonC D) : Json D → Option D
  | .int n => some (c.ofInt n)
  | .double d => some d
  | _ => none

/-- `json_object_equal`. -/
def equal (c : JsonC D) (a b : Json D) : Bool := Json.equal c.eq a b

end JsonC

/-! ### Numbers that change their type -/

namespace Json

variable {D : Type} {c : JsonC D}

mutual

/-- The second value is the first one behind a print and a parse: every double is a number of the
    same value, and all else is as it was, members in their order. -/
def Respelled (c : JsonC D) : Json D → Json D → Prop
  | .null, .null => True
  | .bool a, .bool b => a = b
  | .int m, .int n => m = n
  | .double d, v => c.number v = some d
  | .str s, .str t => s = t
  | .arr xs, .arr ys => RespelledItems c xs ys
  | .obj ms, .obj ns => RespelledMembers c ms ns
  | _, _ => False

def RespelledItems (c : JsonC D) : List (Json D) → List (Json D) → Prop
  | [], [] => True
  | x :: xs, y :: ys => Respelled c x y ∧ RespelledItems c xs ys
  | _, _ => False

def RespelledMembers (c : JsonC D) : List (String × Json D) → List (String × Json D) → Prop
  | [], [] => True
  | (k, v) :: ms, (l, w) :: ns => k = l ∧ Respelled c v w ∧ RespelledMembers c ms ns
  | _, _ => False

end

variable {w : Json D}

attribute [local simp] Respelled in
@[simp] theorem respelled_null : Respelled c .null w ↔ w = .null := by
  cases w <;> simp [Respelled]

@[simp] theorem respelled_bool {b : Bool} : Respelled c (.bool b) w ↔ w = .bool b := by
  cases w <;> simp [Respelled, eq_comm]

@[simp] theorem respelled_int {n : ℤ} : Respelled c (.int n) w ↔ w = .int n := by
  cases w <;> simp [Respelled, eq_comm]

variable {d : D}

@[simp] theorem respelled_double : Respelled c (.double d) w ↔ c.number w = some d := by
  simp only [Respelled]

@[simp] theorem respelled_str {s : String} : Respelled c (.str s) w ↔ w = .str s := by
  cases w <;> simp [Respelled, eq_comm]

@[simp] theorem respelled_arr {xs : List (Json D)} :
    Respelled c (.arr xs) w ↔ ∃ ys, w = .arr ys ∧ RespelledItems c xs ys := by
  cases w <;> simp [Respelled]

variable {ms : List (String × Json D)}

@[simp] theorem respelled_obj :
    Respelled c (.obj ms) w ↔ ∃ ns, w = .obj ns ∧ RespelledMembers c ms ns := by
  cases w <;> simp [Respelled]

variable {v : Json D}

theorem Respelled.ne_null {w : Json D} (h : Respelled c v w) (hv : v ≠ .null) : w ≠ .null := by
  rintro rfl
  cases v <;> simp_all [JsonC.number]

mutual

theorem Respelled.refl : ∀ v : Json D, Respelled c v v
  | .null => by simp only [Respelled]
  | .bool _ => by simp
  | .int _ => by simp
  | .double _ => by simp [JsonC.number]
  | .str _ => by simp
  | .arr xs => by simpa using RespelledItems.refl xs
  | .obj ms => by simpa using RespelledMembers.refl ms

theorem RespelledItems.refl : ∀ xs : List (Json D), RespelledItems c xs xs
  | [] => trivial
  | x :: xs => ⟨Respelled.refl x, RespelledItems.refl xs⟩

theorem RespelledMembers.refl : ∀ ms : List (String × Json D), RespelledMembers c ms ms
  | [] => trivial
  | (_, v) :: ms => ⟨rfl, Respelled.refl v, RespelledMembers.refl ms⟩

end

/-- A number that was respelled is respelled as the same number. -/
theorem Respelled.number {w : Json D} (h : Respelled c v w)
    (hv : c.number v = some d) : c.number w = some d := by
  cases v with
  | int n =>
    obtain rfl := respelled_int.mp h
    exact hv
  | double e =>
    obtain rfl := Option.some.inj hv
    exact respelled_double.mp h
  | _ => cases hv

mutual

theorem Respelled.trans : ∀ {u v w : Json D}, Respelled c u v → Respelled c v w → Respelled c u w
  | .null, _, _, huv, hvw => by
    obtain rfl := respelled_null.mp huv
    exact hvw
  | .bool _, _, _, huv, hvw => by
    obtain rfl := respelled_bool.mp huv
    exact hvw
  | .int _, _, _, huv, hvw => by
    obtain rfl := respelled_int.mp huv
    exact hvw
  | .double _, _, _, huv, hvw => by
    rw [respelled_double] at huv ⊢
    exact hvw.number huv
  | .str _, _, _, huv, hvw => by
    obtain rfl := respelled_str.mp huv
    exact hvw
  | .arr _, _, _, huv, hvw => by
    obtain ⟨ys, rfl, hys⟩ := respelled_arr.mp huv
    obtain ⟨zs, rfl, hzs⟩ := respelled_arr.mp hvw
    exact respelled_arr.mpr ⟨zs, rfl, RespelledItems.trans hys hzs⟩
  | .obj _, _, _, huv, hvw => by
    obtain ⟨ns, rfl, hns⟩ := respelled_obj.mp huv
    obtain ⟨os, rfl, hos⟩ := respelled_obj.mp hvw
    exact respelled_obj.mpr ⟨os, rfl, RespelledMembers.trans hns hos⟩

theorem RespelledItems.trans : ∀ {xs ys zs : List (Json D)},
    RespelledItems c xs ys → RespelledItems c ys zs → RespelledItems c xs zs
  | [], [], _, _, hyz => hyz
  | _ :: _, _ :: _, _ :: _, hxy, hyz =>
    ⟨Respelled.trans hxy.1 hyz.1, RespelledItems.trans hxy.2 hyz.2⟩

theorem RespelledMembers.trans : ∀ {ms ns os : List (String × Json D)},
    RespelledMembers c ms ns → RespelledMembers c ns os → RespelledMembers c ms os
  | [], [], _, _, hno => hno
  | (_, _) :: _, (_, _) :: _, (_, _) :: _, hmn, hno =>
    ⟨hmn.1.trans hno.1, Respelled.trans hmn.2.1 hno.2.1, RespelledMembers.trans hmn.2.2 hno.2.2⟩

end

variable {key : String}

/-- A member is there under its name. -/
theorem RespelledMembers.lookup {ns : List (String × Json D)} (h : RespelledMembers c ms ns)
    (hv : Json.lookup ms key = some v) :
    ∃ w, Json.lookup ns key = some w ∧ Respelled c v w := by
  induction ms generalizing ns with
  | nil => cases hv
  | cons m ms ih =>
    cases ns with
    | nil => exact absurd h (by simp [RespelledMembers])
    | cons n ns =>
      obtain ⟨k, a⟩ := m
      obtain ⟨l, b⟩ := n
      obtain ⟨rfl, hab, htail⟩ := h
      rw [Json.lookup] at hv ⊢
      split at hv
      · obtain rfl := Option.some.inj hv
        exact ⟨b, if_pos ‹_›, hab⟩
      · rw [if_neg ‹_›]
        exact ih htail hv

variable {o : Json D}

theorem member_of_get (h : o.get key = some v) : o.member key = some v ∧ v ≠ .null := by
  unfold Json.get at h
  split at h
  · cases h
  rename_i hne
  refine ⟨h, ?_⟩
  rintro rfl
  exact hne h

theorem get_of_member (h : o.member key = some v) (hv : v ≠ .null) : o.get key = some v := by
  unfold Json.get
  rw [h]
  cases v <;> first | rfl | exact absurd rfl hv

theorem Respelled.get {o' : Json D} (h : Respelled c o o')
    (hv : o.get key = some v) : ∃ w, o'.get key = some w ∧ Respelled c v w := by
  obtain ⟨hmember, hnull⟩ := member_of_get hv
  cases o with
  | obj ms =>
    obtain ⟨ns, rfl, hns⟩ := respelled_obj.mp h
    obtain ⟨w, hw, hvw⟩ := hns.lookup hmember
    exact ⟨w, get_of_member hw (hvw.ne_null hnull), hvw⟩
  | _ => cases hmember

theorem get_add {key q : String} {value : Json D} (h : key ≠ q) :
    (Json.add (.obj ms) key value).get q = (Json.obj ms).get q := by
  have hmember : (Json.add (.obj ms) key value).member q = (Json.obj ms).member q := by
    show Json.lookup (Json.set ms key value) q = Json.lookup ms q
    rw [Json.lookup_set, if_neg h]
  unfold Json.get
  rw [hmember]

end Json
