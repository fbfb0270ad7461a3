import TableQuery.Proofs.QuoteLayers

/-!
# The grammar of literals

Between its two quotes a literal holds other characters, and its own quote in pairs (`Body`). A text
starts with a literal if it starts with a quote, such an inside and the quote again, and does not go
on with a third quote (`Leads`). The scanner goes over the literal at the front of a text exactly if
there is one, and comes out behind it (`closing?_eq_some_iff`); so there is one at most
(`Leads.unique`).

The insides are the texts with their quotes doubled (`body_iff`). So the scanner comes out right
behind a text that was quoted, whatever it holds, and quoting gives back every single-quoted literal
from what is left of it without its quotes (`scan_quote_unquote_agree`).
-/

namespace TableQuery

open Text

namespace Literal

/-- What may stand between two quotes `q`: other characters, and `q`s in pairs. -/
inductive Body (q : Char) : List Char → Prop
  | nil : Body q []
  | other {c : Char} {b : List Char} : c ≠ q → Body q b → Body q (c :: b)
  | pair {b : List Char} : Body q b → Body q (q :: q :: b)

/-- The insides of literals are the texts with their quotes doubled. -/
theorem body_iff {q : Char} {b : List Char} : Body q b ↔ ∃ v, b = double q v := by
  constructor
  · intro h
    induction h with
    | nil => exact ⟨[], rfl⟩
    | @other c b hc _ ih =>
      obtain ⟨v, rfl⟩ := ih
      exact ⟨c :: v, by rw [double, if_neg hc]⟩
    | pair _ ih =>
      obtain ⟨v, rfl⟩ := ih
      exact ⟨q :: v, by rw [double, if_pos rfl]⟩
  · rintro ⟨v, rfl⟩
    induction v with
    | nil => exact .nil
    | cons c v ih =>
      rw [double]
      split
      · exact .pair ih
      · rename_i hc
        exact .other hc ih

/-- The text starts with a literal in the quotes `q`: the inside is `b`, and `r` stands behind
it. -/
structure Leads (q : Char) (b r x : List Char) : Prop where
  text : x = q :: (b ++ q :: r)
  body : Body q b
  ends : ∀ c ∈ r.head?, c ≠ q

theorem leads_double (q : Char) (v : List Char) {r : List Char} (hr : ∀ c ∈ r.head?, c ≠ q) :
    Leads q (double q v) r (quoted q v ++ r) :=
  ⟨by simp [quoted], body_iff.2 ⟨v, rfl⟩, hr⟩

theorem Leads.closing?_eq {q : Char} {b r y : List Char} (h : Leads q b r (q :: y))
    (hq : isQuote q = true) :
    closing? q y = some (b.length + 1) := by
  obtain ⟨v, rfl⟩ := body_iff.1 h.body
  rw [(List.cons.inj h.text).2]
  exact closing?_double hq v h.ends

/-- The scanner comes out behind the literal at the front of the text, if there is one. -/
theorem closing?_eq_some_iff {q : Char} (hq : isQuote q = true) {y : List Char} {n : Nat} :
    closing? q y = some n ↔ ∃ b r, Leads q b r (q :: y) ∧ n = b.length + 1 := by
  constructor
  · intro hn
    obtain ⟨v, htext, hends⟩ := exists_quoted_append hq hn
    have hlead := leads_double q v hends
    rw [← htext] at hlead
    exact ⟨double q v, y.drop n, hlead, Option.some.inj (hn.symm.trans (hlead.closing?_eq hq))⟩
  · rintro ⟨b, r, hlead, rfl⟩
    exact hlead.closing?_eq hq

/-- A text starts with one literal at most. -/
theorem Leads.unique {q : Char} (hq : isQuote q = true) {b r b' r' x : List Char}
    (h : Leads q b r x) (h' : Leads q b' r' x) : b' = b ∧ r' = r := by
  obtain ⟨y, rfl⟩ : ∃ y, x = q :: y := ⟨_, h.text⟩
  have hlength : b'.length + 1 = b.length + 1 :=
    Option.some.inj ((h'.closing?_eq hq).symm.trans (h.closing?_eq hq))
  have htext : b' ++ q :: r' = b ++ q :: r := (List.cons.inj (h'.text.symm.trans h.text)).2
  obtain ⟨rfl, hr⟩ := List.append_inj htext (by omega)
  exact ⟨rfl, (List.cons.inj hr).2⟩

/-- A literal with nothing behind it is a quoted text. -/
theorem Leads.exists_quoted {q : Char} {b x : List Char} (h : Leads q b [] x) :
    ∃ v, x = quoted q v := by
  obtain ⟨v, rfl⟩ := body_iff.1 h.body
  exact ⟨v, h.text⟩

end Literal

/-! ## Going over a literal -/

namespace Cursor

open Literal

theorem literalLength?_of_head {c : Cursor} {u y : List Char} {q : Char}
    (hc : c.Between u (q :: y)) :
    c.literalLength? = (closing? q y).map (· + 1) := by
  rw [literalLength?, hc.rest]

/-- The cursor goes over the literal behind it. -/
theorem Between.skipLiteral {c : Cursor} {u x : List Char} (hc : c.Between u x) {q : Char}
    (hq : isQuote q = true) {b r : List Char} (h : Leads q b r x) :
    c.literalFault? = none ∧ c.skipLiteral.Between (u ++ q :: (b ++ [q])) r := by
  obtain ⟨y, rfl⟩ : ∃ y, x = q :: y := ⟨_, h.text⟩
  have hlength : c.literalLength? = some (q :: (b ++ [q])).length := by
    rw [literalLength?_of_head hc, h.closing?_eq hq, Option.map_some, List.length_cons,
      List.length_append, List.length_singleton]
  have hsplit : c.Between u ((q :: (b ++ [q])) ++ r) := by
    have htext : q :: y = (q :: (b ++ [q])) ++ r := by
      rw [h.text, List.cons_append, List.append_assoc, List.singleton_append]
    rwa [← htext]
  rw [literalFault?, Cursor.skipLiteral, hlength]
  exact ⟨rfl, hsplit.jump⟩

/-- Without a literal behind it, the cursor goes to the end, and the text up to there is refused. -/
theorem Between.skipLiteral_of_not_leads {c : Cursor} {u x : List Char} (hc : c.Between u x)
    {q : Char} (hhead : x.head? = some q) (hq : isQuote q = true) (h : ∀ b r, ¬Leads q b r x) :
    c.literalFault? = some (c.piece.faultFrom .unterminatedLiteral u.length) ∧
      c.skipLiteral.Between (u ++ x) [] := by
  obtain ⟨y, rfl⟩ := List.head?_eq_some_iff.1 hhead
  have hnone : c.literalLength? = none := by
    rw [literalLength?_of_head hc, Option.map_eq_none_iff, Option.eq_none_iff_forall_ne_some]
    intro n hn
    obtain ⟨b, r, hlead, -⟩ := (closing?_eq_some_iff hq).1 hn
    exact h b r hlead
  rw [literalFault?, Cursor.skipLiteral, hnone]
  refine ⟨by rw [hc.position], .seek ?_ ?_⟩
  · rw [hc.chars, List.append_nil]
  · rw [length, Piece.length, hc.chars]

end Cursor

/-- The refusal of a text of which the part `x`, behind `u`, starts with a quote that is never
closed. -/
def Literal.unterminated (start : Nat) (u x : List Char) : ParseError where
  kind := .unbalancedDelimiter
  message := "Unterminated quoted literal"
  text := String.ofList x
  start := start + byteLength u
  stop := start + byteLength (u ++ x)

theorem Cursor.Between.faultFrom {c : Cursor} {u x : List Char} (hc : c.Between u x) :
    c.piece.faultFrom .unterminatedLiteral u.length = Literal.unterminated c.piece.start u x := by
  have hslice : c.piece.slice u.length c.piece.length = x := by
    refine Piece.slice_of_eq (w := []) (by rw [hc.chars, List.append_nil]) rfl ?_
    rw [Piece.length, hc.chars, List.length_append]
  have hstart : c.piece.byteOffset u.length = c.piece.start + byteLength u := by
    rw [Piece.byteOffset_eq, hc.chars, List.take_left]
  have hstop : c.piece.byteOffset c.piece.length = c.piece.start + byteLength (u ++ x) := by
    rw [Piece.byteOffset_eq, Piece.length, List.take_length, hc.chars]
  rw [Piece.faultFrom, Piece.reportSpan, hslice, hstart, hstop]
  rfl

namespace Literal

/-- The scanner, the encoder and the decoder of literals agree. A cursor in front of a quote goes
over a literal exactly if one stands behind it, which is then the only one, and comes out right
behind it; otherwise the text from the quote on is refused and the cursor goes to the end. It goes
over exactly the quoted text where a text was quoted, which is given back by taking off the quotes;
and a text that is one single-quoted literal is given back by quoting what is left of it without its
quotes. -/
theorem scan_quote_unquote_agree :
    (∀ (c : Cursor) (u x : List Char) (q : Char), c.Between u x → x.head? = some q →
      isQuote q = true →
      (c.literalFault? = none ↔ ∃ b r, Leads q b r x) ∧
      (∀ b r, Leads q b r x → c.skipLiteral.Between (u ++ q :: (b ++ [q])) r ∧
        ∀ b' r', Leads q b' r' x → b' = b ∧ r' = r) ∧
      ((∀ b r, ¬Leads q b r x) → c.literalFault? = some (unterminated c.piece.start u x) ∧
        c.skipLiteral.Between (u ++ x) [])) ∧
    (∀ (c : Cursor) (u v y : List Char), c.Between u (quote v ++ y) → y.head? ≠ some '\'' →
      c.literalFault? = none ∧ c.skipLiteral.Between (u ++ quote v) y) ∧
    (∀ v, unquote (quote v) = v) ∧
    ∀ b t, Leads '\'' b [] t → quote (unquote t) = t := by
  have hquote : isQuote '\'' = true := by decide
  refine ⟨fun c u x q hc hhead hq => ⟨⟨fun hnone => ?_, ?_⟩, fun b r h => ?_, fun h => ?_⟩, ?_,
    unquote_quote, ?_⟩
  · by_contra hleads
    push Not at hleads
    rw [(hc.skipLiteral_of_not_leads hhead hq hleads).1] at hnone
    cases hnone
  · rintro ⟨b, r, h⟩
    exact (hc.skipLiteral hq h).1
  · exact ⟨(hc.skipLiteral hq h).2, fun b' r' h' => h.unique hq h'⟩
  · rw [← hc.faultFrom]
    exact hc.skipLiteral_of_not_leads hhead hq h
  · intro c u v y hc hy
    exact hc.skipLiteral hquote (leads_double '\'' v fun d hd e => hy (e ▸ hd))
  · intro b t h
    obtain ⟨v, rfl⟩ := h.exists_quoted
    rw [unquote_quoted hquote]
    rfl

/-- A literal with a doubled quote in it, and one that does not end since its last two quotes are a
pair. -/
theorem scan_quote_unquote_agree_pairs :
    (Cursor.ofPiece ⟨"'it''s' so".toList, 0⟩).skipLiteral.Between "'it''s'".toList " so".toList ∧
      (Cursor.ofPiece ⟨"'it''".toList, 3⟩).literalFault? = some (unterminated 3 [] "'it''".toList) ∧
      (⟨⟨"x = 'it''s'".toList, 0⟩, 4⟩ : Cursor).skipLiteral.Between "x = 'it''s'".toList [] ∧
      quote (unquote "'it''s'".toList) = "'it''s'".toList := by
  have hquote : isQuote '\'' = true := by decide
  have hbody : Body '\'' "it''s".toList := body_iff.2 ⟨"it's".toList, rfl⟩
  obtain ⟨hscan, hquoted, -, hback⟩ := scan_quote_unquote_agree
  refine ⟨?_, ?_, ?_, hback "it''s".toList _ ⟨rfl, hbody, by decide⟩⟩
  · exact ((hscan _ [] _ '\'' (Cursor.between_ofPiece _) rfl hquote).2.1 "it''s".toList " so".toList
      ⟨rfl, hbody, by decide⟩).1
  · have hnot : ¬(Cursor.ofPiece ⟨"'it''".toList, 3⟩).literalFault? = none := by decide
    obtain ⟨hiff, -, hfault⟩ :=
      hscan _ [] _ '\'' (Cursor.between_ofPiece ⟨"'it''".toList, 3⟩) rfl hquote
    exact (hfault fun b r h => hnot (hiff.2 ⟨b, r, h⟩)).1
  · exact (hquoted _ "x = ".toList "it's".toList [] ⟨rfl, rfl⟩ (by decide)).2

end Literal

end TableQuery
