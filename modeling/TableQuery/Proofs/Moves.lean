import TableQuery.Proofs.Cursor

/-!
# Runs of moves

However a cursor is moved from the front of a piece, it stays in the piece, at its end at most
(`Inside.run`). Each move but `seek` is a jump, so it never goes back
(`Inside.exists_move_eq_jump`). The jump over a literal is not empty in front of the end, whether
the literal is terminated or not (`Inside.exists_skipLiteral_eq_jump`), and the one over a keyword
is not cut short by the end, since a keyword is found only where all of it stands
(`Inside.consume?_eq`).
-/

namespace TableQuery

open Text

namespace Cursor

/-! ## Jumps -/

theorem length_rest (c : Cursor) : c.rest.length = c.length - c.position :=
  List.length_drop

theorem position_jump (c : Cursor) (n : Nat) :
    (c.jump n).position = min (c.position + n) c.length := rfl

/-- The cursor stands in the piece, at its end at most. -/
structure Inside (c : Cursor) (p : Piece) : Prop where
  piece : c.piece = p
  position_le : c.position ≤ p.length

theorem inside_ofPiece (p : Piece) : (ofPiece p).Inside p :=
  ⟨rfl, Nat.zero_le _⟩

namespace Inside

variable {c : Cursor} {p : Piece}

theorem length (h : c.Inside p) : c.length = p.length := by
  rw [Cursor.length, h.piece]

theorem jump (h : c.Inside p) (n : Nat) : (c.jump n).Inside p := by
  refine ⟨h.piece, ?_⟩
  rw [position_jump, h.length]
  exact Nat.min_le_right _ _

theorem seek (h : c.Inside p) (n : Nat) : (c.seek n).Inside p := by
  refine ⟨h.piece, ?_⟩
  rw [← h.length]
  exact Nat.min_le_right _ _

theorem position_le_jump (h : c.Inside p) (n : Nat) : c.position ≤ (c.jump n).position := by
  have hle := h.position_le
  rw [position_jump, h.length]
  omega

theorem position_lt_jump (h : c.Inside p) {n : Nat} (hn : 0 < n) (hend : c.position < p.length) :
    c.position < (c.jump n).position := by
  rw [position_jump, h.length]
  omega

/-- A jump over characters that are there is not cut short. -/
theorem jump_eq (h : c.Inside p) {n : Nat} (hn : n ≤ c.rest.length) :
    c.jump n = ⟨p, c.position + n⟩ := by
  have hle := h.position_le
  rw [length_rest, h.length] at hn
  rw [Cursor.jump, h.length, h.piece, Nat.min_eq_left (by omega)]

/-! ## Moves as jumps -/

theorem next_eq_jump (h : c.Inside p) : c.next = c.jump 1 := by
  have hle := h.position_le
  rw [next, Cursor.jump]
  split
  · -- at the end, the jump is cut short to nothing
    rename_i hend
    rw [atEnd, decide_eq_true_iff] at hend
    rw [h.length] at hend ⊢
    rw [Nat.min_eq_right (by omega), ← Nat.le_antisymm hle hend]
  · rename_i hend
    rw [atEnd, decide_eq_true_iff] at hend
    rw [Nat.min_eq_left (by omega)]

theorem skipBlanks_eq_jump (h : c.Inside p) :
    c.skipBlanks = c.jump (c.rest.takeWhile isBlank).length := by
  rw [h.jump_eq (List.takeWhile_prefix _).length_le, skipBlanks, h.piece]

/-- The jump over a literal that is not terminated goes to the end. -/
theorem exists_skipLiteral_eq_jump (h : c.Inside p) :
    ∃ n, c.skipLiteral = c.jump n ∧ (c.position < p.length → 0 < n) := by
  cases hlength : c.literalLength? with
  | some n =>
    refine ⟨n, by rw [skipLiteral, hlength], fun _ => ?_⟩
    rw [literalLength?] at hlength
    split at hlength
    · cases hlength
    · -- the quote that opens the literal belongs to it
      obtain ⟨m, -, rfl⟩ := Option.map_eq_some_iff.1 hlength
      exact Nat.succ_pos m
  | none =>
    refine ⟨p.length, ?_, fun hend => by omega⟩
    rw [skipLiteral, hlength, Cursor.seek, Cursor.jump, h.length, Nat.min_self,
      Nat.min_eq_right (by omega)]

/-- Over a keyword the cursor goes as far as the keyword, which stands in front of the end. -/
theorem consume?_eq (h : c.Inside p) (k : Keyword) :
    c.consume? k = (k.match? c.rest).map fun n => ⟨p, c.position + n⟩ := by
  rw [consume?]
  cases hmatch : k.match? c.rest with
  | none => rfl
  | some n => rw [Option.map_some, Option.map_some, h.jump_eq (Spelling.match?_le_length hmatch)]

/-- Each move but `seek` is a jump. -/
theorem exists_move_eq_jump (h : c.Inside p) {m : Move} (hm : ∀ n, m ≠ .seek n) :
    ∃ n, c.move m = c.jump n := by
  cases m with
  | next => exact ⟨1, h.next_eq_jump⟩
  | skipBlanks => exact ⟨_, h.skipBlanks_eq_jump⟩
  | jump n => exact ⟨n, rfl⟩
  | seek n => exact absurd rfl (hm n)
  | skipLiteral =>
    obtain ⟨n, hn, -⟩ := h.exists_skipLiteral_eq_jump
    exact ⟨n, hn⟩
  | consume k =>
    rw [move, consume?]
    cases k.match? c.rest with
    | none =>
      refine ⟨0, ?_⟩
      rw [h.jump_eq (Nat.zero_le _), ← h.piece]
      rfl
    | some n => exact ⟨n, rfl⟩

/-! ## Runs -/

theorem move (h : c.Inside p) (m : Move) : (c.move m).Inside p := by
  -- `seek` may go back, so it is no jump
  by_cases hm : ∃ n, m = .seek n
  · obtain ⟨n, rfl⟩ := hm
    exact h.seek n
  · obtain ⟨n, hn⟩ := h.exists_move_eq_jump (not_exists.1 hm)
    rw [hn]
    exact h.jump n

/-- What one move keeps is kept by a run of them, from whatever cursor inside the piece it
starts. -/
theorem run (h : c.Inside p) (moves : List Move) : (c.run moves).Inside p := by
  induction moves generalizing c with
  | nil => exact h
  | cons m moves ih => exact ih (h.move m)

end Inside

/-- After any run of moves from its front, the cursor stands in the same piece, at its end at most.
From there no move but `seek` goes back. Going over a literal, terminated or not, goes forward
unless the cursor stands at the end. Where a keyword stands behind it, the cursor goes exactly as
far as the keyword, and where none does it stays. A position further on in the piece is a later byte
of the input. -/
theorem run_stays_inside {p : Piece} {moves : List Move} {c : Cursor}
    (hc : (ofPiece p).run moves = c) :
    (c.piece = p ∧ c.position ≤ p.length) ∧
    (∀ m, (∀ n, m ≠ .seek n) → c.position ≤ (c.move m).position) ∧
    (c.position < p.length → c.position < (c.move .skipLiteral).position) ∧
    (∀ k n, k.match? c.rest = some n → c.consume? k = some (c.move (.consume k)) ∧
      (c.move (.consume k)).position = c.position + n) ∧
    (∀ k, k.match? c.rest = none → c.consume? k = none ∧ c.move (.consume k) = c) ∧
    ∀ i j, i < j → j ≤ p.length → c.piece.byteOffset i < c.piece.byteOffset j := by
  have h : c.Inside p := hc ▸ (inside_ofPiece p).run moves
  refine ⟨⟨h.piece, h.position_le⟩, fun m hm => ?_, fun hend => ?_, fun k n hmatch => ?_,
    fun k hmatch => ?_, fun i j hij hj => ?_⟩
  · obtain ⟨n, hn⟩ := h.exists_move_eq_jump hm
    rw [hn]
    exact h.position_le_jump n
  · obtain ⟨n, hn, hpos⟩ := h.exists_skipLiteral_eq_jump
    rw [Cursor.move, hn]
    exact h.position_lt_jump (hpos hend) hend
  · rw [Cursor.move, h.consume?_eq, hmatch]
    exact ⟨rfl, rfl⟩
  · rw [Cursor.move, h.consume?_eq, hmatch]
    exact ⟨rfl, rfl⟩
  · rw [h.piece]
    exact Piece.byteOffset_lt_byteOffset hij hj

/-- A keyword between a literal that is terminated and one that is not, in a piece that starts with
a character of two bytes. -/
theorem run_stays_inside_limit :
    (ofPiece ⟨"é 'x' limit 'y".toList, 7⟩).run [.next, .skipBlanks, .skipLiteral, .skipBlanks] =
        ⟨⟨"é 'x' limit 'y".toList, 7⟩, 6⟩ ∧
      (move ⟨⟨"é 'x' limit 'y".toList, 7⟩, 6⟩ (.consume .limit)).position = 6 + 5 ∧
      move ⟨⟨"é 'x' limit 'y".toList, 7⟩, 6⟩ (.consume .values) =
        ⟨⟨"é 'x' limit 'y".toList, 7⟩, 6⟩ ∧
      (ofPiece ⟨"é 'x' limit 'y".toList, 7⟩).run [.jump 99, .seek 12] =
        ⟨⟨"é 'x' limit 'y".toList, 7⟩, 12⟩ ∧
      12 < (move ⟨⟨"é 'x' limit 'y".toList, 7⟩, 12⟩ .skipLiteral).position ∧
      12 ≤ (move ⟨⟨"é 'x' limit 'y".toList, 7⟩, 12⟩ (.jump 99)).position ∧
      Piece.byteOffset ⟨"é 'x' limit 'y".toList, 7⟩ 1 <
        Piece.byteOffset ⟨"é 'x' limit 'y".toList, 7⟩ 14 := by
  have hkeyword :
      (ofPiece ⟨"é 'x' limit 'y".toList, 7⟩).run [.next, .skipBlanks, .skipLiteral, .skipBlanks] =
      ⟨⟨"é 'x' limit 'y".toList, 7⟩, 6⟩ := by decide
  have hliteral : (ofPiece ⟨"é 'x' limit 'y".toList, 7⟩).run [.jump 99, .seek 12] =
      ⟨⟨"é 'x' limit 'y".toList, 7⟩, 12⟩ := by decide
  obtain ⟨-, -, -, hfound, hmissing, hbytes⟩ := run_stays_inside hkeyword
  obtain ⟨-, hforward, hstrict, -⟩ := run_stays_inside hliteral
  exact ⟨hkeyword, (hfound .limit 5 (by decide)).2, (hmissing .values (by decide)).2, hliteral,
    hstrict (by decide), hforward (.jump 99) nofun, hbytes 1 14 (by decide) (by decide)⟩

end Cursor

end TableQuery
