import LexSpec.CharSet.Printer
import LexSpec.Proofs.CharSet.Canonical
import LexSpec.Proofs.Text.Escape

/-! # The printed form of a character set and what it leaves open

Inside brackets every character is escaped that could be taken for the beginning of an escape, so the characters
that stand there can be read off a printed form (`renderBrackets_inj`). A dash is not escaped, although it also
stands between the ends of a range. Where `a-b` is written behind smaller and before larger characters it can be a
range or three characters, and `a--b` can be a range up to the dash or one that begins with it.

These are the only two ways in which sets that are not the same are printed alike, and they differ at one place
only, since a set has one dash at most: `text_eq_text_iff`.
-/

namespace LexSpec

variable {r s : CharRange} {rs ss : List CharRange}

/-! ## What stands inside brackets -/

/-- The characters that are written for a range: itself if it is of one character, or else its ends around a
    dash. -/
def CharRange.signs (r : CharRange) : List Char := if r.low = r.high then [r.low] else [r.low, '-', r.high]

/-- The characters that are written for ranges. -/
def signs (ranges : List CharRange) : List Char := ranges.flatMap CharRange.signs

theorem flatMap_bracketed_signs (r : CharRange) : r.signs.flatMap bracketed = r.render := by
  have dash : bracketed '-' = ['-'] := by decide
  unfold CharRange.signs CharRange.render
  split
  · rw [List.flatMap_singleton]
  · simp only [List.flatMap_cons, List.flatMap_nil, List.append_nil, dash, List.singleton_append]

/-- Brackets are the same when the same characters are written in them. -/
theorem renderBrackets_inj :
    CharSet.renderBrackets rs = CharSet.renderBrackets ss ↔ signs rs = signs ss := by
  have written (ranges : List CharRange) :
      CharSet.renderBrackets ranges = '[' :: (signs ranges).flatMap bracketed ++ [']'] := by
    rw [signs, List.flatMap_assoc, CharSet.renderBrackets]
    simp only [flatMap_bracketed_signs]
  rw [written, written]
  constructor
  · intro same
    have inside := List.append_cancel_right (List.cons.inj same).2
    exact flatMap_escape_injective (by decide) inside
  · intro same
    rw [same]

theorem signs_singleton_cons (c : Char) (ranges : List CharRange) :
    signs (.singleton c :: ranges) = c :: signs ranges := by
  rw [signs, List.flatMap_cons, CharRange.signs, CharRange.singleton, if_pos rfl]
  rfl

theorem signs_cons (proper : r.low ≠ r.high) (ranges : List CharRange) :
    signs (r :: ranges) = r.low :: '-' :: r.high :: signs ranges := by
  rw [signs, List.flatMap_cons, CharRange.signs, if_neg proper]
  rfl

/-- The first character is the one with which the first range begins. If it is not all of that range, a dash
    follows. -/
theorem cases_of_signs {ranges : List CharRange} {c : Char} {rest : List Char}
    (written : signs ranges = c :: rest) :
    (∃ more, ranges = .singleton c :: more ∧ signs more = rest) ∨
      ∃ r more, ranges = r :: more ∧ r.low = c ∧ r.low ≠ r.high ∧ '-' :: r.high :: signs more = rest := by
  cases ranges with
  | nil => cases written
  | cons r more =>
    by_cases single : r.low = r.high
    · have itself : r = .singleton r.low := CharRange.ext rfl single.symm
      rw [itself, signs_singleton_cons] at written
      obtain ⟨first, written⟩ := List.cons.inj written
      exact .inl ⟨more, by rw [itself, first], written⟩
    · rw [signs_cons single] at written
      obtain ⟨first, written⟩ := List.cons.inj written
      exact .inr ⟨r, more, rfl, first, single, written⟩

theorem signs_ne_nil (r : CharRange) (ranges : List CharRange) : signs (r :: ranges) ≠ [] := by
  unfold signs CharRange.signs
  rw [List.flatMap_cons]
  split <;> exact List.cons_ne_nil _ _

/-- Ranges that are written alike begin with the same range, or else with a longer range on one side, of which
    the other side has the first character. -/
theorem cases_of_signs_eq (same : signs (r :: rs) = signs (s :: ss)) :
    (r = s ∧ signs rs = signs ss) ∨
      (s = .singleton r.low ∧ r.low ≠ r.high ∧ signs ss = '-' :: r.high :: signs rs) ∨
      (r = .singleton s.low ∧ s.low ≠ s.high ∧ signs rs = '-' :: s.high :: signs ss) := by
  by_cases single : s.low = s.high
  · have itself : s = .singleton s.low := CharRange.ext rfl single.symm
    rw [itself, signs_singleton_cons] at same
    rcases cases_of_signs same with ⟨more, ranges, written⟩ | ⟨x, more, ranges, low, proper, written⟩
    · obtain ⟨rfl, rfl⟩ := List.cons.inj ranges
      exact .inl ⟨itself.symm, written⟩
    · obtain ⟨rfl, rfl⟩ := List.cons.inj ranges
      exact .inr (.inl ⟨by rw [itself, low], proper, written.symm⟩)
  · rw [signs_cons single] at same
    rcases cases_of_signs same with ⟨more, ranges, written⟩ | ⟨x, more, ranges, low, proper, written⟩
    · obtain ⟨first, rfl⟩ := List.cons.inj ranges
      exact .inr (.inr ⟨first, single, written⟩)
    · obtain ⟨rfl, rfl⟩ := List.cons.inj ranges
      obtain ⟨high, tails⟩ := List.cons.inj (List.cons.inj written).2
      exact .inl ⟨CharRange.ext low high, tails⟩

/-! ## Behind the dash -/

/-- All ranges begin behind the dash. -/
def BehindDash (ranges : List CharRange) : Prop := ∀ r ∈ ranges, '-' < r.low

theorem behindDash_of_separated (separated : Separated (r :: rs)) (dash : '-' ≤ r.high) : BehindDash rs := by
  intro s member
  have before := (List.pairwise_cons.1 separated).1 s member
  rw [Char.le_iff_ordinal_le, Fin.le_def] at dash
  rw [Char.lt_iff_ordinal_lt, Fin.lt_def]
  simp only [CharRange.Before] at before
  omega

namespace BehindDash

theorem signs_ne (behind : BehindDash rs) (rest : List Char) : signs rs ≠ '-' :: rest := by
  intro written
  rcases cases_of_signs written with ⟨more, rfl, -⟩ | ⟨r, more, rfl, low, -⟩
  · exact absurd (behind _ (List.mem_cons_self ..)) (Char.lt_irrefl _)
  · exact absurd (behind r (List.mem_cons_self ..)) (low ▸ Char.lt_irrefl _)

/-- Behind the dash, a dash can only stand between the ends of a range. -/
theorem eq_of_signs (left : BehindDash rs) (right : BehindDash ss) (same : signs rs = signs ss) : rs = ss := by
  induction rs generalizing ss with
  | nil =>
    cases ss with
    | nil => rfl
    | cons s ss => exact absurd same.symm (signs_ne_nil s ss)
  | cons r rs ih =>
    cases ss with
    | nil => exact absurd same (signs_ne_nil r rs)
    | cons s ss =>
      have leftTail : BehindDash rs := (List.forall_mem_cons.1 left).2
      have rightTail : BehindDash ss := (List.forall_mem_cons.1 right).2
      rcases cases_of_signs_eq same with ⟨rfl, tails⟩ | ⟨-, -, tail⟩ | ⟨-, -, tail⟩
      · rw [ih leftTail rightTail tails]
      · exact absurd tail (rightTail.signs_ne _)
      · exact absurd tail (leftTail.signs_ne _)

end BehindDash

/-! ## Ranges that are written alike -/

/-- Two rows of ranges differ at one place, in what a dash means there. -/
inductive DashTwins : List CharRange → List CharRange → Prop where
  /-- A range, or its ends and a dash between them. -/
  | members (r : CharRange) (after : List CharRange) :
      DashTwins (r :: after) (.singleton r.low :: .singleton '-' :: .singleton r.high :: after)
  /-- A range up to the dash and a character, or a character and a range from the dash on. -/
  | ends {r s : CharRange} (high : r.high = '-') (low : s.low = '-') (after : List CharRange) :
      DashTwins (r :: .singleton s.high :: after) (.singleton r.low :: s :: after)
  | cons {rs ss : List CharRange} (first : CharRange) (rest : DashTwins rs ss) :
      DashTwins (first :: rs) (first :: ss)

/-- Where a range on one side is met by its first character on the other, what is written behind them decides
    which twins they are. Nothing but the dash can be another character and less than the end of the range. -/
theorem dashTwins_of_signs (left : Separated (r :: rs)) (right : Separated (.singleton r.low :: ss))
    (tail : signs ss = '-' :: r.high :: signs rs) : DashTwins (r :: rs) (.singleton r.low :: ss) := by
  have right : Separated ss := (List.pairwise_cons.1 right).2
  rcases cases_of_signs tail with ⟨more, rfl, written⟩ | ⟨s, more, rfl, low, -, written⟩
  · -- the dash is a character by itself, so all ranges behind it are behind the dash
    have behind : BehindDash more := behindDash_of_separated right (Char.le_refl _)
    rcases cases_of_signs written with ⟨others, rfl, tails⟩ | ⟨s, others, rfl, low, -, tails⟩
    · have high : '-' < r.high := behind _ (List.mem_cons_self ..)
      have same : others = rs := BehindDash.eq_of_signs (List.forall_mem_cons.1 behind).2
        (behindDash_of_separated left (Char.not_lt.1 (Char.lt_asymm high))) tails
      rw [same]
      exact .members r rs
    · have high : '-' < r.high := low ▸ behind s (List.mem_cons_self ..)
      exact absurd tails.symm ((behindDash_of_separated left (Char.not_lt.1 (Char.lt_asymm high))).signs_ne _)
  · -- a range begins with the dash, so the other side has a range that ends with it
    obtain ⟨high, written⟩ := List.cons.inj written
    have behind : BehindDash more := behindDash_of_separated right (low ▸ s.low_le_high)
    rcases cases_of_signs written.symm with ⟨others, rfl, tails⟩ | ⟨x, others, rfl, -, -, tails⟩
    · have before : BehindDash (.singleton s.high :: others) :=
        behindDash_of_separated left (high ▸ Char.le_refl _)
      have same : others = more := BehindDash.eq_of_signs (List.forall_mem_cons.1 before).2 behind tails
      rw [same]
      exact .ends high.symm low more
    · exact absurd tails.symm (behind.signs_ne _)

theorem eq_or_dashTwins_of_signs (left : Separated rs) (right : Separated ss) (same : signs rs = signs ss) :
    rs = ss ∨ DashTwins rs ss ∨ DashTwins ss rs := by
  induction rs generalizing ss with
  | nil =>
    cases ss with
    | nil => exact .inl rfl
    | cons s ss => exact absurd same.symm (signs_ne_nil s ss)
  | cons r rs ih =>
    cases ss with
    | nil => exact absurd same (signs_ne_nil r rs)
    | cons s ss =>
      rcases cases_of_signs_eq same with ⟨rfl, tails⟩ | ⟨rfl, -, tail⟩ | ⟨rfl, -, tail⟩
      · rcases ih (List.pairwise_cons.1 left).2 (List.pairwise_cons.1 right).2 tails with rfl | twins | twins
        · exact .inl rfl
        · exact .inr (.inl (.cons r twins))
        · exact .inr (.inr (.cons r twins))
      · exact .inr (.inl (dashTwins_of_signs left right tail))
      · exact .inr (.inr (dashTwins_of_signs right left tail))

/-- A range does not end where the next one begins. -/
theorem CharRange.Before.high_ne_low (before : r.Before s) : r.high ≠ s.low := by
  intro same
  rw [CharRange.Before, same] at before
  omega

/-- Twins are written alike, with more than one character. -/
theorem DashTwins.signs_eq (twins : DashTwins rs ss) (left : Separated rs) (right : Separated ss) :
    signs rs = signs ss ∧ 1 < (signs rs).length := by
  induction twins with
  | members r after =>
    have before := (List.pairwise_cons.1 right).1 (.singleton r.high) (by simp)
    have proper : r.low ≠ r.high := before.high_ne_low
    rw [signs_cons proper]
    simp only [signs_singleton_cons, List.length_cons, true_and]
    omega
  | @ends r s high low after =>
    have first := (List.pairwise_cons.1 right).1 s (List.mem_cons_self ..)
    have second := (List.pairwise_cons.1 left).1 (.singleton s.high) (List.mem_cons_self ..)
    have properLeft : r.low ≠ r.high := by
      rw [high, ← low]
      exact first.high_ne_low
    have properRight : s.low ≠ s.high := by
      rw [low, ← high]
      exact second.high_ne_low
    rw [signs_cons properLeft, signs_singleton_cons, signs_singleton_cons, signs_cons properRight, high, low]
    simp only [List.length_cons, true_and]
    omega
  | @cons rs ss first rest ih =>
    obtain ⟨same, many⟩ := ih (List.pairwise_cons.1 left).2 (List.pairwise_cons.1 right).2
    unfold signs at *
    rw [List.flatMap_cons, List.flatMap_cons, same, List.length_append]
    rw [same] at many
    exact ⟨rfl, by omega⟩

namespace CharSet

variable {s t : CharSet}

/-! ## Printed forms -/

/-- The set is neither that of all characters nor that of one alphanumeric character. -/
def Bracketed (s : CharSet) : Prop := s ≠ any ∧ ∀ c, isAlphanumeric c = true → s ≠ singleton c

/-- A set is printed as a text. -/
inductive Printed : CharSet → List Char → Prop where
  | any : Printed .any ['.']
  | alone {c : Char} (alphanumeric : isAlphanumeric c = true) : Printed (.singleton c) [c]
  | brackets {s : CharSet} (bracketed : s.Bracketed) : Printed s (renderBrackets s.ranges.toList)

theorem toList_ranges_singleton (c : Char) : (singleton c).ranges.toList = [.singleton c] := rfl

theorem printed_render (s : CharSet) : Printed s s.render := by
  -- the printer has one case for each way to be printed, and its guards tell them apart
  unfold render
  split
  next is => exact is ▸ .any
  next notAny =>
    split
    next r only =>
      split
      next alone =>
        obtain ⟨single, alphanumeric⟩ := alone
        have is : s = singleton r.low := by
          apply CharSet.ext
          rw [← Array.toList_inj, only, toList_ranges_singleton]
          exact congrArg ([·]) (CharRange.ext rfl single.symm)
        exact is ▸ .alone alphanumeric
      next other =>
        rw [← only]
        refine .brackets ⟨notAny, fun c alphanumeric is => other ?_⟩
        rw [is, toList_ranges_singleton] at only
        obtain rfl := List.singleton_inj.1 only
        exact ⟨rfl, alphanumeric⟩
    next other =>
      refine .brackets ⟨notAny, fun c _ is => other (.singleton c) ?_⟩
      rw [is, toList_ranges_singleton]

theorem render_any : any.render = ['.'] := if_pos rfl

theorem singleton_ne_any (c : Char) : singleton c ≠ any := by
  intro same
  have range : CharRange.singleton c = .all :=
    List.singleton_inj.1 (congrArg (fun s : CharSet => s.ranges.toList) same)
  have low : c = '\x00' := congrArg CharRange.low range
  have high : c = Char.ofNat 0x10FFFF := congrArg CharRange.high range
  rw [low] at high
  exact absurd high (by decide)

theorem render_singleton {c : Char} (alphanumeric : isAlphanumeric c = true) : (singleton c).render = [c] := by
  rw [render, if_neg (singleton_ne_any c)]
  exact if_pos ⟨rfl, alphanumeric⟩

theorem Bracketed.render_eq (bracketed : s.Bracketed) : s.render = renderBrackets s.ranges.toList := by
  have printed := printed_render s
  generalize s.render = text at printed
  cases printed with
  | any => exact absurd rfl bracketed.1
  | alone alphanumeric => exact absurd rfl (bracketed.2 _ alphanumeric)
  | brackets => rfl

theorem bracketed_of_signs (notAny : s ≠ any) (many : 1 < (signs s.ranges.toList).length) : s.Bracketed := by
  refine ⟨notAny, fun c _ is => ?_⟩
  rw [is, toList_ranges_singleton, signs_singleton_cons] at many
  exact absurd many (Nat.lt_irrefl 1)

theorem head_renderBrackets (ranges : List CharRange) {c : Char} {rest : List Char}
    (same : renderBrackets ranges = c :: rest) : c = '[' :=
  (List.cons.inj same).1.symm

/-- Sets that are printed alike are the same, or else twins in brackets. -/
theorem eq_or_dashTwins_of_render (same : s.render = t.render) :
    s = t ∨ s ≠ any ∧ t ≠ any ∧
      (DashTwins s.ranges.toList t.ranges.toList ∨ DashTwins t.ranges.toList s.ranges.toList) := by
  have dot : isAlphanumeric '.' = false := by decide
  have bracket : isAlphanumeric '[' = false := by decide
  have first := printed_render s
  have second := printed_render t
  generalize s.render = text at first same
  generalize t.render = text' at second same
  cases first with
  | any =>
    cases second with
    | any => exact .inl rfl
    | alone alphanumeric =>
      rw [← List.singleton_inj.1 same, dot] at alphanumeric
      cases alphanumeric
    | brackets => exact absurd (head_renderBrackets _ same.symm) (by decide)
  | alone alphanumeric =>
    cases second with
    | any =>
      rw [List.singleton_inj.1 same, dot] at alphanumeric
      cases alphanumeric
    | alone => exact .inl (congrArg singleton (List.singleton_inj.1 same))
    | brackets =>
      rw [head_renderBrackets _ same.symm, bracket] at alphanumeric
      cases alphanumeric
  | brackets left =>
    cases second with
    | any => exact absurd (head_renderBrackets _ same) (by decide)
    | alone alphanumeric =>
      rw [head_renderBrackets _ same, bracket] at alphanumeric
      cases alphanumeric
    | brackets right =>
      rcases eq_or_dashTwins_of_signs s.separated t.separated (renderBrackets_inj.1 same) with equal | twins
      · exact .inl (CharSet.ext (Array.toList_inj.1 equal))
      · exact .inr ⟨left.1, right.1, twins⟩

theorem render_eq_of_dashTwins (left : s ≠ any) (right : t ≠ any)
    (twins : DashTwins s.ranges.toList t.ranges.toList) : s.render = t.render := by
  obtain ⟨same, many⟩ := twins.signs_eq s.separated t.separated
  rw [(bracketed_of_signs left many).render_eq, (bracketed_of_signs right (same ▸ many)).render_eq]
  exact renderBrackets_inj.2 same

/-- Two sets are printed alike exactly when they are the same or, the set of all characters apart, differ at one
    place in what a dash means there. Brackets, backslashes and all other characters leave no doubt. -/
theorem text_eq_text_iff (s t : CharSet) :
    s.text = t.text ↔ s = t ∨ s ≠ any ∧ t ≠ any ∧
      (DashTwins s.ranges.toList t.ranges.toList ∨ DashTwins t.ranges.toList s.ranges.toList) := by
  rw [text, text, String.ofList_inj]
  constructor
  · exact eq_or_dashTwins_of_render
  · rintro (rfl | ⟨left, right, twins | twins⟩)
    · rfl
    · exact render_eq_of_dashTwins left right twins
    · exact (render_eq_of_dashTwins right left twins).symm

theorem text_range_eq_text_ofList :
    (range '+' '/').text = (ofList ['+', '-', '/']).text ∧ range '+' '/' ≠ ofList ['+', '-', '/'] := by
  decide +kernel

end CharSet

end LexSpec
