import Mathlib.Algebra.Order.BigOperators.Group.List
import Mathlib.Algebra.Order.Ring.Nat

namespace Segments

open List

/-!
# Segments — texts cut at a separator, and dot segments

A path is cut at its separators; empty segments do not count.  A segment of one dot changes nothing,
and one of two dots takes the segment in front of it away.

* `split`, `split_append` — the pieces between the separators;
* `segments`, `segments_append`, `length_segments` — the pieces that are not empty;
* `resolve`, `resolve_dot`, `resolve_pair`, `resolve_sublist` — what is left of the dot segments;
* `walk`, `walk_eq_some` — the same with room for a number of segments only;
* `segments_map`, `resolve_map` — texts whose symbols are changed.
-/

variable {α β : Type} [DecidableEq α] [DecidableEq β] {sep dot : α}

/-! ### Pieces -/

/-- The pieces of a text between its separators. -/
def split (sep : α) : List α → List (List α)
  | [] => [[]]
  | c :: s =>
    if c = sep then [] :: split sep s
    else
      match split sep s with
      | [] => [[c]]
      | w :: ws => (c :: w) :: ws

theorem split_ne_nil (s : List α) : split sep s ≠ [] := by
  cases s with
  | nil => exact cons_ne_nil _ _
  | cons c s =>
    unfold split
    split
    · exact cons_ne_nil _ _
    · split <;> exact cons_ne_nil _ _

theorem split_sep (s : List α) : split sep (sep :: s) = [] :: split sep s := if_pos rfl

variable {w : List α} {ws : List (List α)}

/-- A symbol is put in front of the first piece. -/
theorem split_cons {c : α} (hc : c ≠ sep) {s : List α}
    (hs : split sep s = w :: ws) : split sep (c :: s) = (c :: w) :: ws := by
  show (if c = sep then _ else _) = _
  rw [if_neg hc, hs]

theorem split_append (a b : List α) : split sep (a ++ sep :: b) = split sep a ++ split sep b := by
  induction a with
  | nil => exact split_sep b
  | cons c a ih =>
    rw [cons_append]
    by_cases hc : c = sep
    · subst hc
      rw [split_sep, split_sep, ih, cons_append]
    cases ha : split sep a with
    | nil => exact absurd ha (split_ne_nil a)
    | cons w ws =>
      rw [ha] at ih
      rw [split_cons hc ha]
      exact split_cons hc ih

theorem split_of_not_mem (h : sep ∉ w) : split sep w = [w] := by
  induction w with
  | nil => rfl
  | cons c w ih =>
    rw [mem_cons, not_or] at h
    unfold split
    rw [if_neg (Ne.symm h.1), ih h.2]

/-- The pieces that are not empty, as `strtok` finds them. -/
def segments (sep : α) (s : List α) : List (List α) := (split sep s).filter fun w => w ≠ []

theorem segments_append (a b : List α) :
    segments sep (a ++ sep :: b) = segments sep a ++ segments sep b := by
  unfold segments
  rw [split_append, filter_append]

@[simp] theorem segments_nil : segments sep [] = [] := rfl

theorem segments_of_not_mem (h : sep ∉ w) (hne : w ≠ []) : segments sep w = [w] := by
  unfold segments
  rw [split_of_not_mem h, filter_cons_of_pos (by simpa using hne), filter_nil]

variable {f : α → β} {sep' : β}

/-- Symbols are changed, and separators are kept. -/
theorem split_map (hf : ∀ c, f c = sep' ↔ c = sep) (s : List α) :
    split sep' (s.map f) = (split sep s).map (List.map f) := by
  induction s with
  | nil => rfl
  | cons c s ih =>
    rw [map_cons]
    unfold split
    rw [ih]
    by_cases hc : c = sep
    · rw [if_pos ((hf c).mpr hc), if_pos hc]
      rfl
    rw [if_neg fun h => hc ((hf c).mp h), if_neg hc]
    cases hs : split sep s with
    | nil => exact absurd hs (split_ne_nil s)
    | cons w ws => rfl

theorem segments_map (hf : ∀ c, f c = sep' ↔ c = sep) (s : List α) :
    segments sep' (s.map f) = (segments sep s).map (List.map f) := by
  unfold segments
  rw [split_map hf, List.filter_map]
  congr 1
  apply filter_congr
  intro w _
  simp

/-- The pieces and their separators are the text. -/
theorem length_split (s : List α) : ((split sep s).map fun w => w.length + 1).sum = s.length + 1 := by
  induction s with
  | nil => rfl
  | cons c s ih =>
    by_cases hc : c = sep
    · subst hc
      rw [split_sep, map_cons, sum_cons, ih, length_nil, length_cons]
      omega
    cases hs : split sep s with
    | nil => exact absurd hs (split_ne_nil s)
    | cons w ws =>
      rw [hs, map_cons, sum_cons] at ih
      rw [split_cons hc hs, map_cons, sum_cons, length_cons, length_cons]
      omega

/-- A text that begins with a separator is not shorter than its segments. -/
theorem length_segments (s : List α) :
    ((segments sep (sep :: s)).map fun w => w.length + 1).sum ≤ s.length + 1 := by
  rw [← length_split s]
  unfold segments
  rw [split_sep, filter_cons_of_neg (by simp)]
  exact (filter_sublist.map _).sum_le_sum fun _ _ => Nat.zero_le _

/-! ### Dot segments -/

/-- One segment, behind those that are there. -/
def push (dot : α) (path : List (List α)) (w : List α) : List (List α) :=
  if w = [dot] then path else if w = [dot, dot] then path.dropLast else path ++ [w]

/-- What is left of the dot segments. -/
def resolve (dot : α) (ws : List (List α)) : List (List α) := ws.foldl (push dot) []

/-- A segment that is not made of one or two dots. -/
def Ordinary (dot : α) (w : List α) : Prop := w ≠ [dot] ∧ w ≠ [dot, dot]

theorem push_ordinary (hw : Ordinary dot w) (path : List (List α)) :
    push dot path w = path ++ [w] := by
  unfold push
  rw [if_neg hw.1, if_neg hw.2]

theorem push_pair (hw : Ordinary dot w) (path : List (List α)) :
    push dot (push dot path w) [dot, dot] = path := by
  have hno : [dot, dot] ≠ [dot] := by simp
  rw [push_ordinary hw]
  unfold push
  rw [if_neg hno, if_pos rfl, dropLast_concat]

theorem resolve_dot (ws ws' : List (List α)) :
    resolve dot (ws ++ [dot] :: ws') = resolve dot (ws ++ ws') := by
  unfold resolve
  rw [foldl_append, foldl_append, foldl_cons]
  congr 1
  exact if_pos rfl

theorem resolve_pair (hw : Ordinary dot w) (ws ws' : List (List α)) :
    resolve dot (ws ++ w :: [dot, dot] :: ws') = resolve dot (ws ++ ws') := by
  unfold resolve
  rw [foldl_append, foldl_append, foldl_cons, foldl_cons, push_pair hw]

variable {dot' : β}

theorem push_map (hf : ∀ c, f c = dot' ↔ c = dot) (path : List (List α))
    (w : List α) : push dot' (path.map (List.map f)) (w.map f) = (push dot path w).map (List.map f) := by
  have hone : w.map f = [dot'] ↔ w = [dot] := by
    rw [map_eq_singleton_iff]
    constructor
    · rintro ⟨c, rfl, hc⟩
      rw [(hf c).mp hc]
    · rintro rfl
      exact ⟨dot, rfl, (hf dot).mpr rfl⟩
  have htwo : w.map f = [dot', dot'] ↔ w = [dot, dot] := by
    constructor
    · intro h
      obtain ⟨c, w, rfl, hc, hrest⟩ := map_eq_cons_iff.mp h
      obtain ⟨c', rfl, hc'⟩ := map_eq_singleton_iff.mp hrest
      rw [(hf c).mp hc, (hf c').mp hc']
    · rintro rfl
      rw [map_cons, map_singleton, (hf dot).mpr rfl]
  unfold push
  by_cases h₁ : w = [dot]
  · rw [if_pos (hone.mpr h₁), if_pos h₁]
  rw [if_neg fun h => h₁ (hone.mp h), if_neg h₁]
  by_cases h₂ : w = [dot, dot]
  · rw [if_pos (htwo.mpr h₂), if_pos h₂, map_dropLast]
  · rw [if_neg fun h => h₂ (htwo.mp h), if_neg h₂, map_append, map_singleton]

theorem resolve_map (hf : ∀ c, f c = dot' ↔ c = dot) (ws : List (List α)) :
    resolve dot' (ws.map (List.map f)) = (resolve dot ws).map (List.map f) := by
  have hall : ∀ path : List (List α), (ws.map (List.map f)).foldl (push dot') (path.map (List.map f)) =
      (ws.foldl (push dot) path).map (List.map f) := by
    induction ws with
    | nil => exact fun _ => rfl
    | cons w ws ih =>
      intro path
      rw [map_cons, foldl_cons, foldl_cons, push_map hf, ih]
  exact hall []

theorem resolve_sublist (ws : List (List α)) : (resolve dot ws).Sublist ws := by
  have hall : ∀ ws path : List (List α), (ws.foldl (push dot) path).Sublist (path ++ ws) := by
    intro ws
    induction ws with
    | nil => exact fun path => by rw [append_nil]; exact List.Sublist.refl _
    | cons w ws ih =>
      intro path
      have hpush : (push dot path w).Sublist (path ++ [w]) := by
        unfold push
        split
        · exact sublist_append_left ..
        split
        · exact (dropLast_sublist _).trans (sublist_append_left ..)
        · exact List.Sublist.refl _
      rw [foldl_cons, append_cons]
      exact (ih _).trans (hpush.append_right ws)
  exact hall ws []

/-! ### Room for some segments only -/

/-- The dot segments are resolved, and an ordinary segment fails where there is no room for it. -/
def walk (dot : α) (room : ℕ) : List (List α) → List (List α) → Option (List (List α))
  | [], path => some path
  | w :: ws, path =>
    if w = [dot] then walk dot room ws path
    else if w = [dot, dot] then walk dot room ws path.dropLast
    else if room ≤ path.length then none
    else walk dot room ws (path ++ [w])

/-- The room is enough at every segment. -/
def Fits (dot : α) (room : ℕ) (ws : List (List α)) : Prop :=
  ∀ front w rest, ws = front ++ w :: rest → Ordinary dot w → (resolve dot front).length < room

variable {room : ℕ}

theorem walk_cons (w : List α) (ws path : List (List α)) : walk dot room (w :: ws) path =
      if w = [dot] then walk dot room ws path
      else if w = [dot, dot] then walk dot room ws path.dropLast
      else if room ≤ path.length then none
      else walk dot room ws (path ++ [w]) := rfl

theorem walk_eq {room : ℕ} (ws path : List (List α)) : walk dot room ws path = none ∨
    walk dot room ws path = some (ws.foldl (push dot) path) := by
  induction ws generalizing path with
  | nil => exact .inr rfl
  | cons w ws ih =>
    rw [walk_cons, foldl_cons]
    unfold push
    split
    · exact ih path
    split
    · exact ih path.dropLast
    split
    · exact .inl rfl
    · exact ih (path ++ [w])

/-- **There is room for the path** if and only if there is at every segment. -/
theorem walk_isSome (ws : List (List α)) :
    (walk dot room ws []).isSome = true ↔ Fits dot room ws := by
  have hall : ∀ ws path : List (List α), (walk dot room ws path).isSome = true ↔
      ∀ front w rest, ws = front ++ w :: rest → Ordinary dot w →
        (front.foldl (push dot) path).length < room := by
    intro ws
    induction ws with
    | nil =>
      intro path
      refine ⟨fun _ front w rest h => ?_, fun _ => rfl⟩
      exact absurd h.symm (by simp)
    | cons v ws ih =>
      intro path
      -- the first segment, and those behind it
      have hsplit : (∀ front w rest, v :: ws = front ++ w :: rest → Ordinary dot w →
          (front.foldl (push dot) path).length < room) ↔
          (Ordinary dot v → path.length < room) ∧ ∀ front w rest, ws = front ++ w :: rest →
            Ordinary dot w → (front.foldl (push dot) (push dot path v)).length < room := by
        constructor
        · intro h
          refine ⟨h [] v ws rfl, fun front w rest heq hw => ?_⟩
          exact h (v :: front) w rest (by rw [heq]; rfl) hw
        · rintro ⟨hv, h'⟩ front w rest heq hw
          cases front with
          | nil =>
            obtain ⟨rfl, rfl⟩ := List.cons.inj heq
            exact hv hw
          | cons u front =>
            obtain ⟨rfl, hrest⟩ := List.cons.inj heq
            exact h' front w rest hrest hw
      rw [hsplit, ← ih, walk_cons]
      by_cases hv : Ordinary dot v
      · rw [if_neg hv.1, if_neg hv.2]
        by_cases hroom : room ≤ path.length
        · rw [if_pos hroom]
          exact iff_of_false Bool.false_ne_true fun h => Nat.not_lt.mpr hroom (h.1 hv)
        · rw [if_neg hroom, push_ordinary hv, and_iff_right fun _ => Nat.lt_of_not_le hroom]
      · rw [and_iff_right fun h => absurd h hv]
        unfold Ordinary at hv
        unfold push
        split
        · rfl
        rename_i h₁
        have h₂ : v = [dot, dot] := by
          by_contra h₂
          exact hv ⟨h₁, h₂⟩
        rw [if_pos h₂, if_pos h₂]
  exact hall ws []

theorem walk_eq_some (h : Fits dot room ws) : walk dot room ws [] = some (resolve dot ws) := by
  obtain hnone | hsome := @walk_eq α _ dot room ws []
  · have hyes := (walk_isSome ws).mpr h
    rw [hnone] at hyes
    cases hyes
  · exact hsome

end Segments
