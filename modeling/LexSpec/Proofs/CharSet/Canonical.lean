import Mathlib.Data.List.Chain
import LexSpec.CharSet.Lemmas

/-! # One form for each set of characters

However a set is built, its ranges are in canonical form: they ascend, and behind the end of a range at
least one character is left out before the next range begins. So a set has only one list of ranges, and
comparing the ranges of two sets compares their members: `SetTerm.build_canonical`.

* `Canonical`: the form, told by the successors of characters.
* `ranges_eq_of_forall_mem`: two lists in this form with the same members are the same list.
* `SetTerm`: the ways to build a set, each with the members that it is meant to have.
-/

namespace LexSpec

variable {r s : CharRange} {rs ss : List CharRange}

/-! ## The form of ranges -/

/-- The second range begins behind the successor of the end of the first one. The successor of a character
    is the next one that is no surrogate, and the last character has none. -/
def CharRange.Apart (r s : CharRange) : Prop := ∃ next, r.high.succ? = some next ∧ next < s.low

structure Canonical (ranges : List CharRange) : Prop where
  ordered : ∀ r ∈ ranges, r.low ≤ r.high
  ascending : ranges.Pairwise fun r s => r.low < s.low ∧ r.high < s.high
  apart : ranges.IsChain CharRange.Apart

theorem CharRange.Before.apart (before : r.Before s) : r.Apart s := by
  have limit := s.low.ordinal.isLt
  simp only [CharRange.Before] at before
  have successor : r.high.ordinal.addNat? 1 = some ⟨r.high.ordinal.val + 1, by omega⟩ :=
    Fin.addNat?_eq_some (by omega)
  refine ⟨.ofOrdinal ⟨r.high.ordinal.val + 1, by omega⟩, ?_, ?_⟩
  · rw [Char.succ?_eq, successor, Option.map_some]
  · rw [Char.lt_iff_ordinal_lt, Char.ordinal_ofOrdinal]
    exact before

theorem canonical_of_separated (separated : Separated rs) : Canonical rs where
  ordered r _ := r.low_le_high
  ascending := separated.imp fun {r s} before => by
    have first := r.ordinal_le
    have second := s.ordinal_le
    simp only [CharRange.Before] at before
    simp only [Char.lt_iff_ordinal_lt, Fin.lt_def]
    omega
  apart := (separated.imp fun before => before.apart).isChain

/-! ## The ranges are determined by their members -/

theorem CharRange.low_mem (r : CharRange) : r.low ∈ r := ⟨Char.le_refl _, r.low_le_high⟩

theorem CharRange.ext_ordinal (low : r.low.ordinal.val = s.low.ordinal.val)
    (high : r.high.ordinal.val = s.high.ordinal.val) : r = s :=
  CharRange.ext (Char.ordinal_inj.1 (Fin.ext low)) (Char.ordinal_inj.1 (Fin.ext high))

/-- The first range begins with the first member. -/
theorem low_le_of_mem (separated : Separated (r :: rs)) {x : CharRange} {c : Char} (hx : x ∈ r :: rs)
    (member : c ∈ x) : r.low.ordinal.val ≤ c.ordinal.val := by
  obtain ⟨low, -⟩ := CharRange.mem_iff.1 member
  rcases List.mem_cons.1 hx with rfl | later
  · exact low
  · have before := (List.pairwise_cons.1 separated).1 x later
    have order := r.ordinal_le
    simp only [CharRange.Before] at before
    omega

/-- A member behind the first range lies behind the successor of its end. -/
theorem high_lt_of_mem_tail (separated : Separated (r :: rs)) {x : CharRange} {c : Char} (hx : x ∈ rs)
    (member : c ∈ x) : r.high.ordinal.val + 1 < c.ordinal.val := by
  obtain ⟨low, -⟩ := CharRange.mem_iff.1 member
  have before := (List.pairwise_cons.1 separated).1 x hx
  simp only [CharRange.Before] at before
  omega

/-- Where two lists begin at the same character and the members of the one are members of the other, the
    first range of the one does not go on beyond that of the other. -/
theorem high_le_of_forall_mem (separated : Separated (s :: ss))
    (members : ∀ c ∈ r, ∃ x ∈ s :: ss, c ∈ x) (low : r.low.ordinal.val = s.low.ordinal.val) :
    r.high.ordinal.val ≤ s.high.ordinal.val := by
  apply Nat.le_of_not_lt
  intro beyond
  -- the character behind the end of the shorter range is in a gap of that list
  have limit := r.high.ordinal.isLt
  have order := s.ordinal_le
  let gap : Char := .ofOrdinal ⟨s.high.ordinal.val + 1, by omega⟩
  have place : gap.ordinal.val = s.high.ordinal.val + 1 := by rw [Char.ordinal_ofOrdinal]
  obtain ⟨x, hx, member⟩ := members gap (CharRange.mem_iff.2 ⟨by omega, by omega⟩)
  rcases List.mem_cons.1 hx with rfl | later
  · have inside := CharRange.mem_iff.1 member
    omega
  · have behind := high_lt_of_mem_tail separated later member
    omega

/-- Behind a common first range the members of the one list are still members of the other. -/
theorem exists_mem_tail {c : Char} (separated : Separated (r :: rs))
    (whole : (∃ x ∈ r :: rs, c ∈ x) → ∃ x ∈ r :: ss, c ∈ x) (tail : ∃ x ∈ rs, c ∈ x) :
    ∃ x ∈ ss, c ∈ x := by
  obtain ⟨x, hx, member⟩ := tail
  obtain ⟨y, hy, other⟩ := whole ⟨x, List.mem_cons_of_mem _ hx, member⟩
  rcases List.mem_cons.1 hy with rfl | later
  · have behind := high_lt_of_mem_tail separated hx member
    have inside := CharRange.mem_iff.1 other
    omega
  · exact ⟨y, later, other⟩

theorem ranges_eq_of_forall_mem (left : Separated rs) (right : Separated ss)
    (same : ∀ c, (∃ x ∈ rs, c ∈ x) ↔ ∃ x ∈ ss, c ∈ x) : rs = ss := by
  induction rs generalizing ss with
  | nil =>
    cases ss with
    | nil => rfl
    | cons s ss =>
      obtain ⟨x, hx, -⟩ := (same s.low).2 ⟨s, List.mem_cons_self .., s.low_mem⟩
      cases hx
  | cons r rs ih =>
    cases ss with
    | nil =>
      obtain ⟨x, hx, -⟩ := (same r.low).1 ⟨r, List.mem_cons_self .., r.low_mem⟩
      cases hx
    | cons s ss =>
      obtain ⟨x, hx, inLeft⟩ := (same s.low).2 ⟨s, List.mem_cons_self .., s.low_mem⟩
      obtain ⟨y, hy, inRight⟩ := (same r.low).1 ⟨r, List.mem_cons_self .., r.low_mem⟩
      have low : r.low.ordinal.val = s.low.ordinal.val :=
        Nat.le_antisymm (low_le_of_mem left hx inLeft) (low_le_of_mem right hy inRight)
      have highLeft : r.high.ordinal.val ≤ s.high.ordinal.val :=
        high_le_of_forall_mem right (fun c member => (same c).1 ⟨r, List.mem_cons_self .., member⟩) low
      have highRight : s.high.ordinal.val ≤ r.high.ordinal.val :=
        high_le_of_forall_mem left (fun c member => (same c).2 ⟨s, List.mem_cons_self .., member⟩) low.symm
      obtain rfl : r = s := CharRange.ext_ordinal low (Nat.le_antisymm highLeft highRight)
      have tails : ∀ c, (∃ x ∈ rs, c ∈ x) ↔ ∃ x ∈ ss, c ∈ x := fun c =>
        ⟨exists_mem_tail left (same c).1, exists_mem_tail right (same c).2⟩
      rw [ih (List.pairwise_cons.1 left).2 (List.pairwise_cons.1 right).2 tails]

namespace CharSet

theorem canonical (s : CharSet) : Canonical s.ranges.toList := canonical_of_separated s.separated

/-- Two sets are equal when they have the same members. -/
theorem ext_mem {s t : CharSet} (same : ∀ c, c ∈ s ↔ c ∈ t) : s = t :=
  CharSet.ext (Array.toList_inj.1 (ranges_eq_of_forall_mem s.separated t.separated same))

end CharSet

/-! ## Sets as they are built -/

/-- A way to build a set of characters. -/
inductive SetTerm where
  | empty
  | any
  | singleton (c : Char)
  | range (low high : Char)
  | ofList (chars : List Char)
  | union (s t : SetTerm)
  | complement (s : SetTerm)
  | inter (s t : SetTerm)
  | diff (s t : SetTerm)

namespace SetTerm

/-- The set that is built. -/
def build : SetTerm → CharSet
  | empty => .empty
  | any => .any
  | singleton c => .singleton c
  | range low high => .range low high
  | ofList chars => .ofList chars
  | union s t => s.build.union t.build
  | complement s => s.build.complement
  | inter s t => s.build.inter t.build
  | diff s t => s.build.diff t.build

/-- The characters that the set is meant to have. -/
def Has (c : Char) : SetTerm → Prop
  | empty => False
  | any => True
  | singleton d => c = d
  | range low high => low ≤ c ∧ c ≤ high
  | ofList chars => c ∈ chars
  | union s t => s.Has c ∨ t.Has c
  | complement s => ¬ s.Has c
  | inter s t => s.Has c ∧ t.Has c
  | diff s t => s.Has c ∧ ¬ t.Has c

theorem mem_build_iff {c : Char} (term : SetTerm) : c ∈ term.build ↔ term.Has c := by
  induction term with
  | empty => simp [build, Has]
  | any => simp [build, Has]
  | singleton d => simp [build, Has]
  | range low high => simp [build, Has]
  | ofList chars => simp [build, Has]
  | union s t left right => simp [build, Has, left, right]
  | complement s ih => simp [build, Has, ih]
  | inter s t left right => simp [build, Has, left, right]
  | diff s t left right => simp [build, Has, left, right]

/-- A set that is built has its ranges in canonical form and the members that it is meant to have, and two
    such sets are equal exactly when they have the same members. -/
theorem build_canonical (s t : SetTerm) :
    Canonical s.build.ranges.toList ∧ (∀ c, s.build.contains c = true ↔ s.Has c) ∧
      ((s.build == t.build) = true ↔ ∀ c, s.build.contains c = t.build.contains c) := by
  refine ⟨s.build.canonical, fun c => ?_, ?_⟩
  · rw [CharSet.contains_iff_mem, mem_build_iff]
  · rw [beq_iff_eq]
    constructor
    · intro same c
      rw [same]
    · intro same
      refine CharSet.ext_mem fun c => ?_
      rw [← CharSet.contains_iff_mem, ← CharSet.contains_iff_mem, same]

/-- Two neighbours on either side of the surrogates are one range, however they come together. -/
example : (union (singleton (Char.ofNat 0xD7FF)) (singleton (Char.ofNat 0xE000))).build =
    (range (Char.ofNat 0xD7FF) (Char.ofNat 0xE000)).build := by decide +kernel

end SetTerm

end LexSpec
