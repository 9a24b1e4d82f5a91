import LexSpec.CharSet.Range

/-! # Sets of characters

A `CharSet` is kept as ranges in ascending order with a gap of at least one character between any two.
That form is unique, so two sets are equal exactly when they have the same members. A set is built from
ranges in any order by sorting them and joining those that touch, or it has the gaps of another set for
its ranges; both lead to the form.
-/

namespace LexSpec

/-- Ranges in ascending order, none touching the next. -/
abbrev Separated (ranges : List CharRange) : Prop := ranges.Pairwise CharRange.Before

/-! ## Joining ranges -/

/-- Ranges in the order of their first characters. -/
abbrev Ascending (ranges : List CharRange) : Prop :=
  ranges.Pairwise fun r s => r.low.ordinal.val ≤ s.low.ordinal.val

/-- Puts a range in its place among sorted ranges. -/
def placeRange (r : CharRange) : List CharRange → List CharRange
  | [] => [r]
  | s :: rest => if r.SortsBefore s then r :: s :: rest else s :: placeRange r rest

/-- Ranges sorted by their first characters, then by their last ones. -/
def sortRanges (ranges : List CharRange) : List CharRange := ranges.foldr placeRange []

/-- Joins ascending ranges to the one before them: a range that it touches is taken into it, and with the
    next that it does not touch a new one begins. -/
def joinRanges (last : CharRange) : List CharRange → List CharRange
  | [] => [last]
  | r :: rest => if last.Before r then last :: joinRanges r rest else joinRanges (last.hull r) rest

/-- Brings ranges into order and joins those that touch. -/
def normalise (ranges : List CharRange) : List CharRange :=
  match sortRanges ranges with
  | [] => []
  | first :: rest => joinRanges first rest

theorem mem_placeRange {r x : CharRange} {ranges : List CharRange} :
    x ∈ placeRange r ranges ↔ x = r ∨ x ∈ ranges := by
  induction ranges with
  | nil => simp [placeRange]
  | cons s rest ih =>
    simp only [placeRange]
    split
    · simp
    · simp only [List.mem_cons, ih]
      exact or_left_comm

theorem mem_sortRanges {x : CharRange} {ranges : List CharRange} : x ∈ sortRanges ranges ↔ x ∈ ranges := by
  induction ranges with
  | nil => rfl
  | cons r rest ih => rw [sortRanges, List.foldr_cons, mem_placeRange, List.mem_cons, ← ih, sortRanges]

theorem ascending_placeRange {ranges : List CharRange} (ascending : Ascending ranges) (r : CharRange) :
    Ascending (placeRange r ranges) := by
  induction ranges with
  | nil => exact List.pairwise_singleton _ _
  | cons s rest ih =>
    obtain ⟨head, tail⟩ := List.pairwise_cons.1 ascending
    simp only [placeRange]
    split
    · next first =>
      have low := first.low_le
      refine List.pairwise_cons.2 ⟨fun x member => ?_, ascending⟩
      rcases List.mem_cons.1 member with rfl | later
      · exact low
      · exact Nat.le_trans low (head x later)
    · next behind =>
      refine List.pairwise_cons.2 ⟨fun x member => ?_, ih tail⟩
      rcases mem_placeRange.1 member with rfl | later
      · exact CharRange.low_le_of_not_sortsBefore behind
      · exact head x later

theorem ascending_sortRanges (ranges : List CharRange) : Ascending (sortRanges ranges) := by
  induction ranges with
  | nil => exact .nil
  | cons r rest ih => exact ascending_placeRange ih r

/-- Taking the second of ascending ranges into the first leaves them ascending. -/
theorem Ascending.hull {last r : CharRange} {rest : List CharRange}
    (ascending : Ascending (last :: r :: rest)) :
    (last.hull r).low = last.low ∧ Ascending (last.hull r :: rest) := by
  obtain ⟨head, tail⟩ := List.pairwise_cons.1 ascending
  have low : (last.hull r).low = last.low := if_pos (Char.le_iff_ordinal_le.2 (head r (List.mem_cons_self ..)))
  refine ⟨low, List.pairwise_cons.2 ⟨fun x member => ?_, (List.pairwise_cons.1 tail).2⟩⟩
  rw [low]
  exact head x (List.mem_cons_of_mem r member)

theorem low_le_of_mem_joinRanges {last x : CharRange} {ranges : List CharRange}
    (ascending : Ascending (last :: ranges)) (member : x ∈ joinRanges last ranges) :
    last.low.ordinal.val ≤ x.low.ordinal.val := by
  induction ranges generalizing last with
  | nil =>
    obtain rfl := List.mem_singleton.1 member
    exact Nat.le_refl _
  | cons r rest ih =>
    obtain ⟨head, tail⟩ := List.pairwise_cons.1 ascending
    simp only [joinRanges] at member
    split at member
    · rcases List.mem_cons.1 member with rfl | later
      · exact Nat.le_refl _
      · exact Nat.le_trans (head r (List.mem_cons_self ..)) (ih tail later)
    · obtain ⟨low, ascending⟩ := ascending.hull
      rw [← low]
      exact ih ascending member

theorem separated_joinRanges {last : CharRange} {ranges : List CharRange}
    (ascending : Ascending (last :: ranges)) : Separated (joinRanges last ranges) := by
  induction ranges generalizing last with
  | nil => exact List.pairwise_singleton _ _
  | cons r rest ih =>
    have tail := (List.pairwise_cons.1 ascending).2
    simp only [joinRanges]
    split
    · next before =>
      refine List.pairwise_cons.2 ⟨fun x member => ?_, ih tail⟩
      exact Nat.lt_of_lt_of_le before (low_le_of_mem_joinRanges tail member)
    · exact ih ascending.hull.2

theorem separated_normalise (ranges : List CharRange) : Separated (normalise ranges) := by
  have ascending := ascending_sortRanges ranges
  unfold normalise
  split
  · exact .nil
  · next sorted =>
    rw [sorted] at ascending
    exact separated_joinRanges ascending

/-! ## Gaps between ranges -/

/-- The gaps between separated ranges and around them, from an ordinal on. -/
def gaps (start : Nat) : List CharRange → List CharRange
  | [] =>
    if h : start < Char.numCodePoints then
      [.ofOrdinals ⟨start, h⟩ ⟨Char.numCodePoints - 1, by decide⟩ (Nat.le_sub_one_of_lt h)]
    else []
  | r :: rest =>
    if h : start < r.low.ordinal then
      .ofOrdinals ⟨start, by omega⟩ ⟨r.low.ordinal - 1, by omega⟩ (Nat.le_sub_one_of_lt h) ::
        gaps (r.high.ordinal + 1) rest
    else gaps (r.high.ordinal + 1) rest

theorem low_ordinal_ofOrdinals {first last : Fin Char.numCodePoints} (h : first ≤ last) :
    (CharRange.ofOrdinals first last h).low.ordinal = first := Char.ordinal_ofOrdinal

theorem high_ordinal_ofOrdinals {first last : Fin Char.numCodePoints} (h : first ≤ last) :
    (CharRange.ofOrdinals first last h).high.ordinal = last := Char.ordinal_ofOrdinal

theorem le_low_of_mem_gaps {start : Nat} {ranges : List CharRange} {x : CharRange}
    (ordered : Separated ranges) (h : ∀ r ∈ ranges, start ≤ r.high.ordinal)
    (member : x ∈ gaps start ranges) : start ≤ x.low.ordinal := by
  induction ranges generalizing start with
  | nil =>
    simp only [gaps] at member
    split at member
    · simp only [List.mem_singleton] at member
      simp [member, low_ordinal_ofOrdinals]
    · simp at member
  | cons r rest ih =>
    obtain ⟨head, tail⟩ := List.pairwise_cons.1 ordered
    have bound := h r (List.mem_cons_self ..)
    have later : ∀ s ∈ rest, r.high.ordinal.val + 1 ≤ s.high.ordinal.val := fun s hs => by
      have before := head s hs
      have order := s.ordinal_le
      simp only [CharRange.Before] at before
      omega
    simp only [gaps] at member
    split at member
    · rcases List.mem_cons.1 member with rfl | member
      · simp [low_ordinal_ofOrdinals]
      · have := ih tail later member
        omega
    · have := ih tail later member
      omega

theorem separated_gaps {ranges : List CharRange} (ordered : Separated ranges) (start : Nat) :
    Separated (gaps start ranges) := by
  induction ranges generalizing start with
  | nil =>
    simp only [gaps]
    split <;> simp
  | cons r rest ih =>
    obtain ⟨head, tail⟩ := List.pairwise_cons.1 ordered
    have later : ∀ s ∈ rest, r.high.ordinal.val + 1 ≤ s.high.ordinal.val := fun s hs => by
      have before := head s hs
      have order := s.ordinal_le
      simp only [CharRange.Before] at before
      omega
    simp only [gaps]
    split
    · next room =>
      refine List.pairwise_cons.2 ⟨fun x member => ?_, ih tail _⟩
      have bound := le_low_of_mem_gaps tail later member
      have order := r.ordinal_le
      simp only [CharRange.Before, high_ordinal_ofOrdinals]
      omega
    · exact ih tail _

/-- A set of characters. -/
@[ext] structure CharSet where
  ranges : Array CharRange
  separated : Separated ranges.toList
deriving DecidableEq

namespace CharSet

def ofSeparated (ranges : List CharRange) (h : Separated ranges) : CharSet := ⟨ranges.toArray, h⟩

def empty : CharSet := ofSeparated [] .nil

instance : EmptyCollection CharSet := ⟨empty⟩

instance : Inhabited CharSet := ⟨empty⟩

/-- The set of all characters. -/
def any : CharSet := ofSeparated [.all] (List.pairwise_singleton _ _)

def singleton (c : Char) : CharSet := ofSeparated [.singleton c] (List.pairwise_singleton _ _)

/-- The characters between two characters, both included. It is empty if they are not in order. -/
def range (low high : Char) : CharSet :=
  match CharRange.ofBounds? low high with
  | some r => ofSeparated [r] (List.pairwise_singleton _ _)
  | none => empty

/-- The members of any of the ranges. -/
def ofRanges (ranges : List CharRange) : CharSet := ofSeparated (normalise ranges) (separated_normalise ranges)

/-- The characters of a list. -/
def ofList (chars : List Char) : CharSet := ofRanges (chars.map .singleton)

def isEmpty (s : CharSet) : Bool := s.ranges.isEmpty

/-- Looks for a range with the character `c` among those with an index from `low` to below `high`,
    halving their number at each step. -/
def bisect (ranges : Array CharRange) (c : Char) (low high : Nat) : Bool :=
  if h : low < high ∧ high ≤ ranges.size then
    let middle := (low + high) / 2
    let r := ranges[middle]
    -- the ranges ascend, so a miss tells on which side of the middle to go on
    if r.high < c then bisect ranges c (middle + 1) high
    else if c < r.low then bisect ranges c low middle
    else true
  else false
termination_by high - low

/-- Membership: a character lies in a set when it lies in one of its ranges. -/
instance : Membership Char CharSet where
  mem s c := ∃ r ∈ s.ranges.toList, c ∈ r

/-- Decides membership by bisection. -/
def contains (s : CharSet) (c : Char) : Bool := bisect s.ranges c 0 s.ranges.size

/-- The members of either set. -/
def union (s t : CharSet) : CharSet := ofRanges (s.ranges.toList ++ t.ranges.toList)

/-- The characters outside a set. -/
def complement (s : CharSet) : CharSet :=
  ofSeparated (gaps 0 s.ranges.toList) (separated_gaps s.separated 0)

/-- The members of both sets: what lies outside of neither. -/
def inter (s t : CharSet) : CharSet := (s.complement.union t.complement).complement

/-- The members of one set that are not in another. -/
def diff (s t : CharSet) : CharSet := s.inter t.complement

end CharSet

end LexSpec
