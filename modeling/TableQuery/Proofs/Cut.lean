import TableQuery.Proofs.Trim

/-!
# Cutting ranges out of a piece

A range of a piece is given by two positions, which may lie beyond the end or in the wrong order.
What is cut out is the `Stretch` between them, without the blanks at its ends: positions beyond the
end stand for the end, a range in the wrong order is empty, and a range of blanks is cut to the
empty piece at its end (`Stretch.cut_eq`).

A piece that has been cut out knows where it stands in the input, so that it can be cut again: its
ranges are the ranges of the first piece at the same place (`Stretch.cut_cut`).
-/

namespace TableQuery.Piece

open Text

/-- The piece without the blanks at its ends. -/
def trimmed (p : Piece) : Piece :=
  ⟨trim p.chars, p.start + byteLength (p.chars.takeWhile isBlank)⟩

/-- A range that is cut out starts behind the text in front of it and the blanks that it starts
with. -/
theorem cut_eq_trimmed {p : Piece} {u x w : List Char} (h : p.chars = u ++ (x ++ w)) :
    p.cut u.length (u.length + x.length) = trimmed ⟨x, p.start + byteLength u⟩ := by
  have hslice : p.slice u.length (u.length + x.length) = x := slice_of_eq h rfl rfl
  have htake :
      p.chars.take (u.length + (x.takeWhile isBlank).length) = u ++ x.takeWhile isBlank := by
    have hprefix : x.takeWhile isBlank <+: x ++ w :=
      (List.takeWhile_prefix _).trans (List.prefix_append x w)
    rw [h, List.take_length_add_append, ← List.prefix_iff_eq_take.1 hprefix]
  rw [cut, hslice, trimmed, byteOffset_eq, Nat.min_eq_left (Nat.le_add_right _ _), htake,
    byteLength_append, Nat.add_assoc]

/-- Positions beyond the end stand for the end, and a range in the wrong order is empty. -/
theorem cut_min (p : Piece) (first last : Nat) :
    p.cut (min first (min last p.length)) (min last p.length) = p.cut first last := by
  by_cases h : first ≤ min last p.length
  · have hslice : p.slice first (min last p.length) = p.slice first last := by
      rw [slice, slice, List.take_eq_take_iff, List.length_drop, ← length]
      omega
    rw [Nat.min_eq_left h, cut, cut, hslice, Nat.min_eq_left h, Nat.min_eq_left (by omega)]
  · -- both ranges are empty
    have hempty : ∀ i j, j ≤ i ∨ p.length ≤ i → p.cut i j = ⟨[], p.byteOffset (min i j)⟩ := by
      intro i j hij
      have hnil : p.slice i j = [] := by
        rw [slice, List.take_eq_nil_iff, List.drop_eq_nil_iff, ← length]
        omega
      rw [cut, hnil]
      rfl
    rw [hempty _ _ (by omega), hempty first last (by omega)]
    congr 1
    by_cases hlast : last ≤ p.length
    · congr 1
      omega
    · rw [byteOffset_of_length_le (i := min first last) (by omega)]
      congr 1
      omega

/-! ## Stretches -/

/-- A range of the piece: the text in front of it, the blanks that it starts with, what is left of
it without the blanks at its ends, the blanks that it ends with, and the text behind it. A blank
range starts with its blanks. -/
structure Stretch (p : Piece) (first last : Nat) where
  front : List Char
  lead : List Char
  body : List Char
  trail : List Char
  back : List Char
  chars : p.chars = front ++ (lead ++ (body ++ (trail ++ back)))
  length_front : front.length = min first (min last p.length)
  length_range : (front ++ (lead ++ (body ++ trail))).length = min last p.length
  blank_lead : Blank lead
  blank_trail : Blank trail
  tight : Tight body
  trail_eq_nil : body = [] → trail = []

namespace Stretch

variable {p : Piece} {first last : Nat}

/-- The position at which the stretch begins, behind its blanks. -/
def index (s : Stretch p first last) : Nat :=
  (s.front ++ s.lead).length

theorem exists_stretch (p : Piece) (first last : Nat) : Nonempty (Stretch p first last) := by
  obtain ⟨stop, hstop⟩ : ∃ stop, stop = min last p.length := ⟨_, rfl⟩
  obtain ⟨start, hstart⟩ : ∃ start, start = min first stop := ⟨_, rfl⟩
  obtain ⟨m, hm⟩ : ∃ m, p.chars.take stop = p.chars.take start ++ m := by
    have hprefix : p.chars.take start <+: p.chars.take stop := List.take_prefix_take_left (by omega)
    obtain ⟨m, hm⟩ := hprefix
    exact ⟨m, hm.symm⟩
  obtain ⟨b, hb, htrim⟩ := exists_trimEnd_blank (trimStart m)
  have hparts : m = m.takeWhile isBlank ++ (trim m ++ b) := by
    rw [trim, ← htrim, trimStart, List.takeWhile_append_dropWhile]
  refine ⟨⟨p.chars.take start, m.takeWhile isBlank, trim m, b, p.chars.drop stop, ?_, ?_, ?_,
    blank_takeWhile m, hb, tight_trim m, ?_⟩⟩
  · have htext := List.take_append_drop stop p.chars
    rw [hm, List.append_assoc] at htext
    rw [← List.append_assoc (trim m), ← List.append_assoc (m.takeWhile isBlank), ← hparts, htext]
  · rw [List.length_take, ← length, ← hstop, ← hstart]
    omega
  · rw [← hparts, ← hm, List.length_take, ← length, ← hstop]
    omega
  · intro hnil
    have hblank : trimStart m = [] := by
      rw [trimStart, List.dropWhile_eq_nil_iff]
      exact trim_eq_nil_iff.1 hnil
    rw [hblank, trimEnd_nil, List.nil_append] at htrim
    exact htrim.symm

theorem takeWhile_range (s : Stretch p first last) :
    (s.lead ++ (s.body ++ s.trail)).takeWhile isBlank = s.lead := by
  rw [List.takeWhile_append_of_pos s.blank_lead]
  cases hbody : s.body with
  | nil => rw [s.trail_eq_nil hbody, List.append_nil, List.takeWhile_nil, List.append_nil]
  | cons c r =>
    have hc : ¬isBlank c = true := by
      rw [s.tight.head c (by rw [hbody]; rfl)]
      decide
    rw [List.cons_append, List.takeWhile_cons_of_neg hc, List.append_nil]

/-- What is cut out is the range without the blanks at its ends, behind all that stands in front of
it. -/
theorem cut_eq (s : Stretch p first last) :
    p.cut first last = ⟨s.body, p.start + byteLength (s.front ++ s.lead)⟩ := by
  have hchars : p.chars = s.front ++ ((s.lead ++ (s.body ++ s.trail)) ++ s.back) := by
    rw [s.chars]
    simp only [List.append_assoc]
  have hlast : min last p.length = s.front.length + (s.lead ++ (s.body ++ s.trail)).length := by
    rw [← s.length_range, List.length_append]
  rw [← cut_min, ← s.length_front, hlast, cut_eq_trimmed hchars, trimmed, s.takeWhile_range,
    trim_blank_append_blank s.blank_lead s.blank_trail s.tight, byteLength_append, Nat.add_assoc]

/-- Cutting a piece that has been cut out is cutting at the same place of the piece that it was cut
out of. -/
theorem cut_cut (s : Stretch p first last) {i j : Nat} (hij : i ≤ j) (hj : j ≤ s.body.length) :
    (p.cut first last).cut i j = p.cut (s.index + i) (s.index + j) := by
  obtain ⟨u, x, w, hbody, rfl, rfl⟩ :
      ∃ u x w, s.body = u ++ (x ++ w) ∧ i = u.length ∧ j = u.length + x.length := by
    refine ⟨s.body.take i, (s.body.drop i).take (j - i), (s.body.drop i).drop (j - i), ?_, ?_, ?_⟩
    · rw [List.take_append_drop, List.take_append_drop]
    · rw [List.length_take]
      omega
    · rw [List.length_take, List.length_take, List.length_drop]
      omega
  have hinner : (p.cut first last).chars = u ++ (x ++ w) := by rw [s.cut_eq, hbody]
  have houter : p.chars = (s.front ++ s.lead ++ u) ++ (x ++ (w ++ (s.trail ++ s.back))) := by
    rw [s.chars, hbody]
    simp only [List.append_assoc]
  have hplace : (s.front ++ s.lead ++ u).length = s.index + u.length := by
    rw [List.length_append, index]
  rw [cut_eq_trimmed hinner, ← Nat.add_assoc, ← hplace, cut_eq_trimmed houter, s.cut_eq,
    byteLength_append (s.front ++ s.lead) u, Nat.add_assoc]

end Stretch

/-- Every range of a piece is a stretch of it, and what is cut out is the stretch without the blanks
at its ends, at the byte behind all that stands in front of it. Cut again, it gives what the piece
itself gives at the same place. -/
theorem cut_exact_and_composes (p : Piece) (first last : Nat) :
    Nonempty (Stretch p first last) ∧ ∀ s : Stretch p first last,
      p.cut first last = ⟨s.body, p.start + byteLength (s.front ++ s.lead)⟩ ∧
      ∀ i j, i ≤ j → j ≤ (p.cut first last).length →
        (p.cut first last).cut i j = p.cut (s.index + i) (s.index + j) := by
  refine ⟨Stretch.exists_stretch p first last,
    fun s => ⟨s.cut_eq, fun i j hij hj => s.cut_cut hij ?_⟩⟩
  rwa [s.cut_eq] at hj

/-- A range that goes on beyond the end, behind a character of two bytes and a blank of three, and a
range of blanks in what is cut out of it. -/
theorem cut_exact_and_composes_beyond :
    cut ⟨"é\u3000a  b ".toList, 10⟩ 1 99 = ⟨"a  b".toList, 15⟩ ∧
      (cut ⟨"é\u3000a  b ".toList, 10⟩ 1 99).cut 1 3 = cut ⟨"é\u3000a  b ".toList, 10⟩ 3 5 := by
  let s : Stretch ⟨"é\u3000a  b ".toList, 10⟩ 1 99 :=
    { front := ['é'], lead := ['\u3000'], body := "a  b".toList, trail := [' '], back := []
      chars := rfl, length_front := rfl, length_range := rfl
      blank_lead := by decide, blank_trail := by decide, tight := by decide
      trail_eq_nil := by decide }
  obtain ⟨-, hcut⟩ := cut_exact_and_composes ⟨"é\u3000a  b ".toList, 10⟩ 1 99
  obtain ⟨htext, hagain⟩ := hcut s
  refine ⟨htext, hagain 1 3 (by decide) ?_⟩
  rw [htext]
  decide

end TableQuery.Piece
