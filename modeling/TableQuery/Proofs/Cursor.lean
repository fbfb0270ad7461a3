import TableQuery.Cursor
import TableQuery.Proofs.KeywordMatch

/-!
# Cursors by the text behind them

What a cursor does depends only on the text behind it: every look at a cursor is a look at `rest`,
and every move is a move of `rest`.
-/

namespace TableQuery.Cursor

open Text

theorem rest_of_eq {c : Cursor} {u x : List Char} (h : c.piece.chars = u ++ x)
    (hc : c.position = u.length) : c.rest = x := by
  rw [rest, h, hc, List.drop_left]

theorem drop_length_takeWhile (p : Char → Bool) (cs : List Char) :
    cs.drop (cs.takeWhile p).length = cs.dropWhile p := by
  induction cs with
  | nil => rfl
  | cons c cs ih => cases h : p c <;> simp [h, ih]

theorem rest_skipBlanks (c : Cursor) : c.skipBlanks.rest = trimStart c.rest := by
  have e : c.skipBlanks.rest = c.rest.drop (c.rest.takeWhile isBlank).length := by
    rw [rest, skipBlanks, ← List.drop_drop, ← rest]
  rw [e, drop_length_takeWhile, trimStart]

theorem rest_jump (c : Cursor) (n : Nat) : (c.jump n).rest = c.rest.drop n := by
  have e : (c.jump n).rest = c.piece.chars.drop (min (c.position + n) c.piece.chars.length) := rfl
  rw [e, rest, List.drop_drop]
  by_cases h : c.position + n ≤ c.piece.chars.length
  · rw [Nat.min_eq_left h]
  · rw [Nat.min_eq_right (by omega), List.drop_length, List.drop_of_length_le (by omega)]

theorem atEnd_iff {c : Cursor} : c.atEnd = true ↔ c.rest = [] := by
  rw [atEnd, rest, List.drop_eq_nil_iff, decide_eq_true_iff]
  rfl

theorem rest_next (c : Cursor) : c.next.rest = c.rest.drop 1 := by
  rw [next]
  split
  · rename_i h
    rw [atEnd_iff.1 h, List.drop_nil]
  · rw [rest, rest, List.drop_drop]

theorem current_eq (c : Cursor) : c.current = c.rest.head?.getD Literal.endMark := by
  rw [current, peek, charAt?, rest, List.head?_drop, Nat.add_zero]

theorem current_eq_iff {c : Cursor} {d : Char} (hd : d ≠ Literal.endMark) :
    c.current = d ↔ c.rest.head? = some d := by
  rw [current_eq]
  cases h : c.rest.head? with
  | none =>
    simp only [Option.getD_none, reduceCtorEq, iff_false]
    exact fun e => hd e.symm
  | some e => simp

/-! ## The texts on both sides -/

/-- The cursor stands behind `u` and in front of `x`. -/
structure Between (c : Cursor) (u x : List Char) : Prop where
  chars : c.piece.chars = u ++ x
  position : c.position = u.length

theorem between_ofPiece (p : Piece) : (ofPiece p).Between [] p.chars :=
  ⟨rfl, rfl⟩

theorem Between.rest {c : Cursor} {u x : List Char} (h : c.Between u x) : c.rest = x :=
  rest_of_eq h.chars h.position

theorem Between.jump {c : Cursor} {u x y : List Char} (h : c.Between u (x ++ y)) :
    (c.jump x.length).Between (u ++ x) y := by
  have hlen : c.piece.chars.length = u.length + (x.length + y.length) := by
    rw [h.chars, List.length_append, List.length_append]
  refine ⟨by rw [jump_piece, h.chars, List.append_assoc], ?_⟩
  have e : (c.jump x.length).position = min (c.position + x.length) c.piece.chars.length := rfl
  rw [e, h.position, List.length_append]
  omega

theorem Between.seek {c : Cursor} {u v : List Char} (h : c.piece.chars = u ++ v) {n : Nat}
    (hn : n = u.length) : (c.seek n).Between u v := by
  refine ⟨h, ?_⟩
  have e : (c.seek n).position = min n c.piece.chars.length := rfl
  rw [e, hn, h, List.length_append]
  omega

theorem Between.skipBlanks {c : Cursor} {u x : List Char} (h : c.Between u x) :
    c.skipBlanks.Between (u ++ x.takeWhile isBlank) (trimStart x) := by
  refine ⟨?_, ?_⟩
  · rw [skipBlanks_piece, h.chars, List.append_assoc, trimStart, List.takeWhile_append_dropWhile]
  · have e : c.skipBlanks.position = c.position + (c.rest.takeWhile isBlank).length := rfl
    rw [e, h.rest, h.position, List.length_append]

/-- Over blanks in front of a text that starts with none. -/
theorem Between.skip {c : Cursor} {u w x : List Char} (h : c.Between u (w ++ x)) (hw : Blank w)
    (hx : ∀ d ∈ x.head?, isBlank d = false) : c.skipBlanks.Between (u ++ w) x := by
  have hs := h.skipBlanks
  rw [trimStart_blank_append hw, trimStart_eq_self hx] at hs
  have htake : (w ++ x).takeWhile isBlank = w := by
    rw [List.takeWhile_append_of_pos hw]
    cases x with
    | nil => simp
    | cons d x => simp [hx d rfl]
  rwa [htake] at hs

theorem consume?_eq_some {c c' : Cursor} {k : Keyword} {u x : List Char} (hc : c.Between u x)
    (h : c.consume? k = some c') :
    ∃ m y, x = m ++ y ∧ k.match? x = some m.length ∧ Plain m ∧ m ≠ [] ∧ c'.Between (u ++ m) y := by
  rw [consume?, hc.rest] at h
  obtain ⟨n, hn, rfl⟩ := Option.map_eq_some_iff.1 h
  obtain ⟨hpos, hle, hplain⟩ := Keyword.plain_of_match? hn
  have hlen : (x.take n).length = n := by
    rw [List.length_take, Nat.min_eq_left hle]
  have hb : c.Between u (x.take n ++ x.drop n) := by
    rwa [List.take_append_drop]
  have hj := hb.jump
  rw [hlen] at hj
  refine ⟨x.take n, x.drop n, (List.take_append_drop n x).symm, by rw [hlen]; exact hn,
    hplain, ?_, hj⟩
  intro e
  rw [e] at hlen
  exact absurd hlen (by simpa using Nat.ne_of_lt hpos)

theorem consume?_of_match? {c : Cursor} {k : Keyword} {u m y : List Char}
    (hc : c.Between u (m ++ y)) (hm : k.match? (m ++ y) = some m.length) :
    c.consume? k = some (c.jump m.length) := by
  rw [consume?, hc.rest, hm]
  rfl

end TableQuery.Cursor
