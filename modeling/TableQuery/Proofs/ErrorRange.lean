import TableQuery.Proofs.ClauseOccurrences
import TableQuery.Proofs.Cut
import TableQuery.Proofs.InsertRefusals
import TableQuery.Proofs.Isolation
import TableQuery.Proofs.SortKey

/-!
# Where errors point

A piece that is cut out of a text and cut again still knows where it stands: it is a stretch of the
text, and starts at the byte at which this stretch does (`Piece.Within`). Faults of such a piece are
`Located`: their range is the range of a stretch of the text, and they show this stretch, or the one
character behind an empty range. Each reader is followed once, with the pieces that it passes on
within the text and its faults located; only faults with two positions of their own need these in
order.

So an error of a whole statement points into the text that was read (`errors_point_into_text`).
-/

namespace TableQuery

open Text Outline

namespace Piece

variable {t : List Char} {p : Piece}

/-! ## Pieces of a text -/

/-- The piece is a stretch of the text and starts at the byte at which this stretch does. -/
def Within (t : List Char) (p : Piece) : Prop :=
  ∃ u v, t = u ++ (p.chars ++ v) ∧ p.start = byteLength u

/-- The front of a piece is a piece. -/
theorem Within.left (h : p.Within t) {x y : List Char} (e : p.chars = x ++ y) :
    Within t ⟨x, p.start⟩ := by
  obtain ⟨u, v, rfl, hs⟩ := h
  exact ⟨u, y ++ v, by rw [e, List.append_assoc], hs⟩

theorem Within.cut (h : p.Within t) (i j : Nat) : (p.cut i j).Within t := by
  obtain ⟨u, v, rfl, hstart⟩ := h
  obtain ⟨s⟩ := Stretch.exists_stretch p i j
  refine ⟨u ++ (s.front ++ s.lead), s.trail ++ (s.back ++ v), ?_, ?_⟩
  · rw [s.cut_eq, s.chars]
    simp only [List.append_assoc]
  · rw [s.cut_eq, byteLength_append u, hstart]

theorem Within.rest (h : p.Within t) (i : Nat) : (p.rest i).Within t :=
  h.cut i p.length

end Piece

/-! ## Located errors -/

namespace ParseError

/-- The error is no complaint about the length of the input. Its range is the range of a stretch of
the text, and it shows this stretch, or the one character behind an empty range. -/
structure Located (t : List Char) (e : ParseError) : Prop where
  kind : e.kind ≠ .inputTooLong
  range : ∃ u x v, t = u ++ (x ++ v) ∧ e.start = byteLength u ∧ e.stop = byteLength (u ++ x) ∧
    (e.text.toList = x ∨ x = [] ∧ ∃ c ∈ v.head?, e.text.toList = [c])

end ParseError

namespace Piece

open ParseError

variable {t : List Char} {p : Piece}

theorem Within.located_faultAt (h : p.Within t) {f : Fault} (hf : f.kind ≠ .inputTooLong)
    (i : Nat) :
    Located t (p.faultAt f i) := by
  obtain ⟨u, v, rfl, hs⟩ := h
  refine ⟨hf, u ++ p.chars.take i, [], p.chars.drop i ++ v, ?_, ?_, ?_, ?_⟩
  · rw [List.nil_append, List.append_assoc, ← List.append_assoc (p.chars.take i),
      List.take_append_drop]
  · rw [byteLength_append, ← hs]
    exact p.byteOffset_eq i
  · rw [List.append_nil, byteLength_append, ← hs]
    exact p.byteOffset_eq i
  · have hshown : (p.faultAt f i).text.toList = (p.chars.drop i).take 1 := by
      simp [faultAt, reportAt, slice]
    rw [hshown]
    cases p.chars.drop i with
    | nil => exact .inl rfl
    | cons c r => exact .inr ⟨rfl, c, rfl, rfl⟩

/-- A fault with two positions is located if these are in order, or if the second is the end. -/
theorem Within.located_faultSpan (h : p.Within t) {f : Fault} (hf : f.kind ≠ .inputTooLong)
    {i j : Nat} (hij : i ≤ j ∨ p.length ≤ j) : Located t (p.faultSpan f i j) := by
  obtain ⟨u, v, rfl, hs⟩ := h
  have htake : p.chars.take i ++ p.slice i j = p.chars.take j := by
    by_cases h : i ≤ j
    · rw [slice, ← List.take_add, Nat.add_sub_cancel' h]
    · have hj : p.chars.length ≤ j := hij.resolve_left h
      rw [slice, Nat.sub_eq_zero_of_le (by omega), List.take_zero, List.append_nil,
        List.take_of_length_le hj, List.take_of_length_le (by omega)]
  refine ⟨hf, u ++ p.chars.take i, p.slice i j, p.chars.drop j ++ v, ?_, ?_, ?_, .inl ?_⟩
  · rw [List.append_assoc, ← List.append_assoc (p.chars.take i), htake,
      ← List.append_assoc (p.chars.take j), List.take_append_drop]
  · rw [byteLength_append, ← hs]
    exact p.byteOffset_eq i
  · rw [List.append_assoc, htake, byteLength_append, ← hs]
    exact p.byteOffset_eq j
  · exact String.toList_ofList

theorem Within.located_faultFrom (h : p.Within t) {f : Fault} (hf : f.kind ≠ .inputTooLong)
    (i : Nat) :
    Located t (p.faultFrom f i) :=
  h.located_faultSpan hf (.inr (Nat.le_refl _))

theorem Within.located_faultWhole (h : p.Within t) {f : Fault} (hf : f.kind ≠ .inputTooLong) :
    Located t (p.faultWhole f) :=
  h.located_faultFrom hf 0

/-- A search in a piece of the text gives the first answer or a located error. -/
theorem Within.yields_search {α : Type} (h : p.Within t) (o : Outline) (f : Site → Option α) :
    Yields (Located t) (fun a => a = o.sites.findSome? f) (p.search o f) :=
  Piece.yields_search fun i _ => h.located_faultFrom (by decide) i

end Piece

open ParseError

variable {t : List Char} {p : Piece}

/-! ## Lists -/

theorem ListRole.missingKind_ne (role : ListRole) : role.missingKind ≠ .inputTooLong := by
  cases role <;> decide

namespace ItemList

theorem yields_itemIn (h : p.Within t) (role : ListRole) {i j : Nat} (hij : i ≤ j ∨ p.length ≤ j) :
    Yields (Located t) (Piece.Within t) (itemIn p role i j) := by
  have hkind : (Fault.blankItem role).kind ≠ .inputTooLong := role.missingKind_ne
  unfold itemIn
  dsimp only
  split
  · refine .error (h.located_faultSpan hkind ?_)
    omega
  · exact .ok (h.cut i j)

/-- Behind every comma stands a later site, so that items are cut in order. -/
theorem yields_itemsFrom (h : p.Within t) (role : ListRole) {sites : List Site} {first : Nat}
    (hs : sites.Pairwise fun s s' => s.index < s'.index) (hf : ∀ s ∈ sites, first ≤ s.index) :
    Yields (Located t) (fun a => ∀ q ∈ a.1, Piece.Within t q) (itemsFrom p role first sites) := by
  induction sites generalizing first with
  | nil => exact .ok fun q hq => by cases hq
  | cons s r ih =>
    obtain ⟨hle, hr⟩ := List.forall_mem_cons.1 hf
    obtain ⟨hlt, hs⟩ := List.pairwise_cons.1 hs
    unfold itemsFrom
    split
    · exact .error (h.located_faultAt (by decide) s.index)
    · split
      · refine (yields_itemIn h role (.inl hle)).bind fun q hq => ?_
        refine (ih hs fun s' hs' => hlt s' hs').bind fun a ha => ?_
        exact .ok (List.forall_mem_cons.2 ⟨hq, ha⟩)
      · exact ih hs hr

theorem yields_split (h : p.Within t) (role : ListRole) :
    Yields (Located t) (fun items => ∀ q ∈ items, Piece.Within t q) (split p role) := by
  have hkind : (Fault.noItem role).kind ≠ .inputTooLong := role.missingKind_ne
  unfold split
  dsimp only
  split
  · exact .error (h.located_faultWhole hkind)
  · rw [Piece.sites_outline]
    refine (yields_itemsFrom h role (pairwise_sitesFrom _ _) fun s _ => Nat.zero_le _).bind
      fun a ha => ?_
    refine (Piece.yields_requireTerminated fun i _ => h.located_faultFrom (by decide) i).bind
      fun _ _ => ?_
    refine (Piece.yields_requireClosed fun i _ => h.located_faultFrom (by decide) i).bind
      fun _ _ => ?_
    refine (yields_itemIn h role (.inr (Nat.le_refl _))).bind fun q hq => ?_
    refine .ok fun q' hq' => ?_
    rcases List.mem_append.1 hq' with hq' | hq'
    · exact ha q' hq'
    · rw [List.mem_singleton.1 hq']
      exact hq

theorem yields_parse (h : p.Within t) (role : ListRole) :
    Yields (Located t) (fun _ => True) (parse p role) :=
  (yields_split h role).bind fun _ _ => .ok trivial

end ItemList

/-! ## Parts of a `SELECT` -/

namespace Clauses

/-- The head and the bodies are pieces of the text. -/
structure Within (t : List Char) (c : Clauses) : Prop where
  head : c.head.Within t
  body : ∀ k b, c.body? k = some b → b.Within t

theorem Within.put {c : Clauses} (hc : c.Within t) {k : ClauseKind} (hk : c.has k = false)
    {b : Piece} (hb : b.Within t) : (c.put k b).Within t := by
  refine ⟨by rw [put_head]; exact hc.head, fun k' b' h => ?_⟩
  rw [body?_put hk] at h
  split at h
  · cases h
    exact hb
  · exact hc.body k' b' h

theorem within_ofHead (h : p.Within t) : (ofHead p).Within t :=
  ⟨h, fun k b hb => by cases k <;> cases hb⟩

theorem located_repeated (h : p.Within t) {m : ClauseStart} {stop : Nat} (hm : m.first ≤ m.last)
    (hs : m.first ≤ stop ∨ p.length ≤ stop) : Located t (repeated p m stop) := by
  unfold repeated
  split
  · exact h.located_faultSpan (by decide) hs
  · exact h.located_faultSpan (fun e => by cases e) (.inl hm)

/-- Marks are met from left to right, so that each stands in front of where its clause ends. -/
theorem yields_fill (h : p.Within t) {marks : List ClauseStart} {c : Clauses} (hc : c.Within t)
    (hm : marks.Pairwise fun m m' => m.last ≤ m'.first) (hle : ∀ m ∈ marks, m.first ≤ m.last) :
    Yields (Located t) (Within t) (fill p c marks) := by
  induction marks generalizing c with
  | nil => exact .ok hc
  | cons m marks ih =>
    obtain ⟨hfirst, hle⟩ := List.forall_mem_cons.1 hle
    obtain ⟨hlast, hm⟩ := List.pairwise_cons.1 hm
    have hstop : m.first ≤ reach p marks ∨ p.length ≤ reach p marks := by
      cases marks with
      | nil => exact .inr (Nat.le_refl _)
      | cons m' marks => exact .inl (Nat.le_trans hfirst (hlast m' List.mem_cons_self))
    unfold fill
    dsimp only
    split
    · exact .error (located_repeated h hfirst hstop)
    · rename_i hk
      exact ih (hc.put (by simpa using hk) (h.cut _ _)) hm hle

theorem yields_split (h : p.Within t) : Yields (Located t) (Within t) (split p) := by
  unfold split
  dsimp only
  rw [Piece.sites_outline]
  refine (Piece.yields_requireBalanced (h.located_faultAt (by decide))
    (h.located_faultFrom (by decide))
    (h.located_faultFrom (by decide))).bind fun _ hb => ?_
  have hb := Piece.requireBalanced_eq_ok_iff.1 hb
  exact yields_fill h (within_ofHead (h.cut _ _)) (ClauseStart.pairwise_marks hb) fun m hm =>
    ((ClauseStart.mem_marks_iff hb).1 hm).first_le

end Clauses

theorem SelectHead.yields_parse (h : p.Within t) :
    Yields (Located t) (fun head => head.fields.Within t) (SelectHead.parse p) := by
  unfold SelectHead.parse
  split
  · rename_i c _
    refine (h.yields_search _ _).bind fun range _ => ?_
    split
    · dsimp only
      split
      · exact .error (h.located_faultFrom (by decide) _)
      · exact .ok (h.cut _ _)
    · exact .error (h.located_faultWhole (by decide))
  · exact .error (h.located_faultWhole (by decide))

namespace Join

/-- A reference moves the cursor on in the same piece. -/
theorem yields_reference {c : Cursor} (h : c.piece.Within t) :
    Yields (Located t) (fun a => a.2.piece = c.piece) (reference c) := by
  unfold reference
  dsimp only
  split
  · exact .error (h.located_faultAt (by decide) _)
  · exact .ok rfl

theorem yields_equality {c : Cursor} (h : c.piece.Within t) :
    Yields (Located t) (fun _ => True) (equality c) := by
  unfold equality
  refine (yields_reference (c := c.skipBlanks) h).bind fun a h₁ => ?_
  obtain ⟨left, c₁⟩ := a
  have hw₁ : c₁.piece.Within t := by rwa [h₁]
  dsimp only
  split
  · exact .error (hw₁.located_faultAt (by decide) _)
  · have hw : c₁.skipBlanks.next.skipBlanks.piece.Within t := by
      rw [Cursor.skipBlanks_piece, Cursor.next_piece, Cursor.skipBlanks_piece]
      exact hw₁
    refine (yields_reference hw).bind fun b h₂ => ?_
    obtain ⟨right, c₂⟩ := b
    have hw₂ : c₂.piece.Within t := by rwa [h₂]
    dsimp only
    split
    · exact .error (hw₂.located_faultFrom (by decide) _)
    · exact .ok trivial

theorem yields_parse (h : p.Within t) (kind : JoinKind) :
    Yields (Located t) (fun _ => True) (parse kind p) := by
  unfold parse
  refine (h.yields_search _ _).bind fun range _ => ?_
  split
  · dsimp only
    split
    · exact .error (h.located_faultSpan (by decide) (.inl (Nat.zero_le _)))
    · exact (yields_equality h).bind fun _ _ => .ok trivial
  · exact .error (h.located_faultWhole (by decide))

end Join

namespace Condition

theorem yields_ofParts (h : p.Within t) (operator : Operator) (i j : Nat) :
    Yields (Located t) (fun _ => True) (ofParts p operator i j) := by
  unfold ofParts
  dsimp only
  split
  · exact .error (h.located_faultWhole fun e => by cases e)
  · split
    · exact .error (h.located_faultWhole fun e => by cases e)
    · exact .ok trivial

theorem yields_parse (h : p.Within t) : Yields (Located t) (fun _ => True) (parse p) := by
  unfold parse
  refine (h.yields_search _ _).bind fun range _ => ?_
  split
  · exact yields_ofParts h _ _ _
  · refine (h.yields_search _ _).bind fun range _ => ?_
    split
    · exact yields_ofParts h _ _ _
    · exact .error (h.located_faultWhole (by decide))

end Condition

namespace Where

theorem connector?_length {s : Site} {n : Nat} (h : connector? s = some n) : n = 2 ∨ n = 3 := by
  have key : ∀ {k : Keyword} {w : List Char}, k.spelling.words = [w] → s.topKeyword? k = some n →
      n = w.length := by
    intro k w hk h
    obtain ⟨x, r, -, hx, -, rfl⟩ :=
      Keyword.match?_eq_some_iff_spells.1 (Site.topKeyword?_eq_some_iff.1 h).2.2
    rw [hk] at hx
    cases hx with
    | word hu => rw [← hu, List.length_map]
  rw [connector?] at h
  cases ha : s.topKeyword? .and with
  | some m =>
    rw [ha] at h
    cases h
    exact .inr (key (w := ['A', 'N', 'D']) rfl ha)
  | none =>
    rw [ha] at h
    exact .inl (key (w := ['O', 'R']) rfl h)

theorem yields_conditionIn (h : p.Within t) (i j : Nat) {n : Nat} (hn : i ≤ n ∨ p.length ≤ n) :
    Yields (Located t) (Piece.Within t) (conditionIn p i j n) := by
  unfold conditionIn
  dsimp only
  split
  · exact .error (h.located_faultSpan (by decide) hn)
  · exact .ok (h.cut i j)

/-- A connector ends at least two characters behind its site, and a later one not before it. -/
theorem yields_fragmentsFrom (h : p.Within t) {sites : List Site} {first : Nat}
    (hs : sites.Pairwise fun s s' => s.index < s'.index) (hf : ∀ s ∈ sites, first ≤ s.index + 2) :
    Yields (Located t) (fun a => ∀ q ∈ a.1, Piece.Within t q) (fragmentsFrom p first sites) := by
  induction sites generalizing first with
  | nil => exact .ok fun q hq => by cases hq
  | cons s r ih =>
    obtain ⟨hle, hr⟩ := List.forall_mem_cons.1 hf
    obtain ⟨hlt, hs⟩ := List.pairwise_cons.1 hs
    unfold fragmentsFrom
    split
    · rename_i n hn
      have hlength := connector?_length hn
      refine (yields_conditionIn h _ _ (.inl (by omega))).bind fun q hq => ?_
      refine (ih hs fun s' hs' => ?_).bind fun a ha => .ok (List.forall_mem_cons.2 ⟨hq, ha⟩)
      have := hlt s' hs'
      omega
    · exact ih hs hr

theorem yields_split (h : p.Within t) :
    Yields (Located t) (fun fragments => ∀ q ∈ fragments, Piece.Within t q) (split p) := by
  unfold split
  dsimp only
  split
  · exact .error (h.located_faultWhole (by decide))
  · rw [Piece.sites_outline]
    refine (yields_fragmentsFrom h (pairwise_sitesFrom _ _) fun s _ => Nat.zero_le _).bind
      fun a ha => ?_
    refine (Piece.yields_requireTerminated fun i _ => h.located_faultFrom (by decide) i).bind
      fun _ _ => ?_
    refine (yields_conditionIn h _ _ (.inr (Nat.le_refl _))).bind fun q hq => ?_
    exact .ok (List.forall_mem_append.2 ⟨ha, List.forall_mem_singleton.2 hq⟩)

theorem yields_parse (h : p.Within t) : Yields (Located t) (fun _ => True) (parse p) := by
  refine (yields_split h).bind fun fragments hf => ?_
  exact (Yields.mapM fun q hq => Condition.yields_parse (hf q hq)).mono (fun _ h => h)
    fun _ _ => trivial

end Where

namespace SortKey

theorem yields_parseItem (h : p.Within t) : Yields (Located t) (fun _ => True) (parseItem p) := by
  have hfield : Piece.Within t ⟨(divide p.chars).1, p.start⟩ := by
    rcases divide_cases p.chars with e | ⟨g, w, -, -, -, e, -⟩
    · rw [e]
      exact h
    · exact h.left e
  unfold parseItem hasTopBlank
  dsimp only
  refine ((hfield.yields_search _ _).bind fun _ _ => .ok trivial).bind (Q := fun _ => True)
    fun found _ => ?_
  split
  · exact .error (h.located_faultWhole (by decide))
  · exact .ok trivial

theorem yields_parse (h : p.Within t) : Yields (Located t) (fun _ => True) (parse p) := by
  refine (ItemList.yields_split h .orderBy).bind fun items hi => ?_
  exact (Yields.mapM fun q hq => yields_parseItem (hi q hq)).mono (fun _ h => h) fun _ _ => trivial

end SortKey

theorem Limit.yields_parse (h : p.Within t) :
    Yields (Located t) (fun _ => True) (Limit.parse p) := by
  unfold Limit.parse
  split
  · exact .ok trivial
  · exact .error (h.located_faultWhole (by decide))

namespace SelectQuery

theorem yields_join {c : Clauses} (h : c.Within t) :
    Yields (Located t) (fun _ => True) (joinOf c) :=
  yields_joinOf fun kind b e =>
    Join.yields_parse (h.body (.join kind) b (by simp [Clauses.body?, e])) kind

theorem yields_parse (h : p.Within t) : Yields (Located t) (fun _ => True) (parse p) := by
  unfold parse
  refine (Clauses.yields_split h).bind fun c hc => ?_
  refine (SelectHead.yields_parse hc.head).bind fun head hh => ?_
  refine (ItemList.yields_parse hh .projection).bind fun _ _ => ?_
  refine (yields_join hc).bind fun _ _ => ?_
  refine (yields_optional fun b hb => Where.yields_parse (hc.body .whereRows b hb)).bind
    fun _ _ => ?_
  refine (yields_optional fun b hb => ItemList.yields_parse (hc.body .groupBy b hb) .groupBy).bind
    fun _ _ => ?_
  refine (yields_optional fun b hb => SortKey.yields_parse (hc.body .orderBy b hb)).bind
    fun _ _ => ?_
  exact (yields_optional fun b hb => Limit.yields_parse (hc.body .limit b hb)).bind
    fun _ _ => .ok trivial

end SelectQuery

/-! ## `INSERT` -/

namespace InsertQuery

theorem Refusal.located {e : ParseError} (he : Refusal p e) (h : p.Within t) : Located t e := by
  cases he with
  | notInsert => exact h.located_faultWhole (by decide)
  | missingTable i | unexpectedClose i => exact h.located_faultAt (by decide) i
  | missingValues i | unexpectedTail i | unterminatedLiteral i | unclosedOpen i =>
    exact h.located_faultFrom (by decide) i
  | missingOpen role i => exact h.located_faultFrom (fun e => by cases e) i
  | list i j _ he => exact (ItemList.yields_split (h.cut i j) _).of_error he
  | arity i j _ _ => exact (h.cut i j).located_faultWhole fun e => by cases e

theorem yields_parse (h : p.Within t) (arity : Bool) :
    Yields (Located t) (fun _ => True) (parse arity p) :=
  (refusals_parse arity p).mono (fun _ he => he.located h) fun _ h => h

end InsertQuery

/-! ## Statements -/

namespace Statement

theorem yields_parse (h : p.Within t) (settings : Settings) :
    Yields (Located t) (fun _ => True) (parse settings p) := by
  unfold parse
  dsimp only
  split
  · exact (SelectQuery.yields_parse h).map fun _ _ => trivial
  · split
    · exact (InsertQuery.yields_parse h settings.matchArity).map fun _ _ => trivial
    · exact .error (h.located_faultSpan (by decide) (.inl (Nat.zero_le _)))

theorem within_of_isolate {settings : Settings} {text : String}
    (h : isolate settings text = .ok p) :
    p.Within text.toList := by
  obtain ⟨-, rfl⟩ := isolate_eq_ok_iff.1 h
  have hwhole : (Piece.ofString text 0).Within text.toList :=
    ⟨[], [], (List.append_nil _).symm, rfl⟩
  have hrest := hwhole.rest 0
  generalize (Piece.ofString text 0).rest 0 = q at hrest
  unfold dropSemicolon
  split
  · rename_i hlast
    obtain ⟨b, -, hb⟩ := exists_trimEnd_blank q.chars.dropLast
    obtain ⟨r, hr⟩ := List.getLast?_eq_some_iff.1 hlast
    refine hrest.left (y := b ++ [';']) ?_
    rw [← List.append_assoc, ← hb, hr, List.dropLast_concat]
  · exact hrest

end Statement

/-! ## Errors of a text -/

namespace ParseError

/-- The range of the error lies in the text, between two characters at either end, and the error
shows the bytes of its range, or the one character behind an empty range. -/
structure PointsInto (e : ParseError) (text : String) : Prop where
  ordered : e.start ≤ e.stop
  bounded : e.stop ≤ text.utf8ByteSize
  start_valid : String.Pos.Raw.IsValid text ⟨e.start⟩
  stop_valid : String.Pos.Raw.IsValid text ⟨e.stop⟩
  shows : e.text.toByteArray = text.toByteArray.extract e.start e.stop ∨
    e.start = e.stop ∧ ∃ (u v : String) (c : Char), text = u ++ (String.singleton c ++ v) ∧
      u.utf8ByteSize = e.start ∧ e.text = String.singleton c

theorem Located.pointsInto {e : ParseError} {text : String} (h : Located text.toList e) :
    e.PointsInto text := by
  obtain ⟨-, u, x, v, ht, hstart, hstop, hshown⟩ := h
  have htext : text = String.ofList u ++ (String.ofList x ++ String.ofList v) := by
    rw [← String.ofList_append, ← String.ofList_append, ← ht, String.ofList_toList]
  have hu := utf8ByteSize_ofList u
  have hx := utf8ByteSize_ofList x
  rw [byteLength_append] at hstop
  refine ⟨by omega, ?_, ?_, ?_, ?_⟩
  · rw [htext, String.utf8ByteSize_append, String.utf8ByteSize_append]
    omega
  · refine String.Pos.Raw.isValid_iff_exists_append.2 ⟨_, _, htext, ?_⟩
    rw [hstart, ← hu]
    rfl
  · refine String.Pos.Raw.isValid_iff_exists_append.2
      ⟨_, _, by rw [← String.append_assoc] at htext; exact htext, ?_⟩
    rw [hstop, ← hu, ← hx, ← String.utf8ByteSize_append]
    rfl
  · rcases hshown with hshown | ⟨rfl, c, hc, hshown⟩
    · left
      have hbytes : text.toByteArray = (String.ofList u).toByteArray ++
          ((String.ofList x).toByteArray ++ (String.ofList v).toByteArray) := by
        rw [htext, String.toByteArray_append, String.toByteArray_append]
      have hlength : ∀ cs, (String.ofList cs).toByteArray.size = byteLength cs :=
        utf8ByteSize_ofList
      have hshows : e.text = String.ofList x := by rw [← hshown, String.ofList_toList]
      have hskip : ∀ b : ByteArray, ((String.ofList u).toByteArray ++ b).extract (byteLength u)
          (byteLength u + byteLength x) = b.extract 0 (byteLength x) := fun b =>
        ByteArray.extract_append_size_add' (i := 0) (hlength u).symm
      rw [hbytes, hshows, hstart, hstop, hskip]
      exact (ByteArray.extract_append_eq_left (hlength x).symm).symm
    · obtain ⟨r, rfl⟩ := List.head?_eq_some_iff.1 hc
      refine .inr ⟨by rw [hstart, hstop]; rfl, String.ofList u, String.ofList r, c, ?_,
        by rw [hu, hstart], ?_⟩
      · rw [String.singleton_eq_ofList, ← String.ofList_append]
        exact htext
      · rw [String.singleton_eq_ofList, ← hshown, String.ofList_toList]

end ParseError

/-- The outcome of reading a text: it is refused for its length exactly if it is longer than the
limit, and any other error points into it. -/
structure Reported {α : Type} (settings : Settings) (text : String)
    (outcome : Except ParseError α) : Prop where
  tooLong : (∃ e, outcome = .error e ∧ e.kind = .inputTooLong) ↔
    settings.maxLength < text.utf8ByteSize
  points : ∀ e, outcome = .error e → e.kind ≠ .inputTooLong → e.PointsInto text

theorem reported_of_yields {α : Type} {settings : Settings} {text : String}
    {f : Piece → Except ParseError α}
    (h : ∀ p : Piece, p.Within text.toList → Yields (Located text.toList) (fun _ => True) (f p)) :
    Reported settings text (Statement.isolate settings text >>= f) := by
  by_cases hlength : settings.maxLength < text.utf8ByteSize
  · have hlong : Statement.isolate settings text =
        .error (Statement.tooLong (byteLength text.toList) settings.maxLength) := by
      rw [Statement.isolate]
      exact if_pos (by rw [← byteLength_toList] at hlength; exact hlength)
    rw [hlong]
    refine ⟨iff_of_true ⟨_, rfl, rfl⟩ hlength, fun e he hne => ?_⟩
    cases he
    exact absurd rfl hne
  · have hbytes : byteLength text.toList ≤ settings.maxLength := by
      rw [byteLength_toList]
      omega
    obtain ⟨p, hp⟩ := Statement.exists_isolate hbytes
    have hy := h p (Statement.within_of_isolate hp)
    rw [hp]
    refine ⟨iff_of_false ?_ hlength, fun e he _ => (hy.of_error he).pointsInto⟩
    rintro ⟨e, he, hkind⟩
    exact (hy.of_error he).kind hkind

/-- Whatever is read from a text, an error points into the text, unless the text is too long. -/
theorem errors_point_into_text (settings : Settings) (text : String) :
    Reported settings text (SelectQuery.ofText settings text) ∧
      Reported settings text (InsertQuery.ofText settings text) ∧
      Reported settings text (Join.ofText settings text) ∧
      Reported settings text (Statement.ofText settings text) := by
  refine ⟨reported_of_yields fun p h => SelectQuery.yields_parse h,
    reported_of_yields fun p h => InsertQuery.yields_parse h settings.matchArity,
    reported_of_yields fun p h => ?_,
      reported_of_yields fun p h => Statement.yields_parse h settings⟩
  exact (Clauses.yields_split h).bind fun c hc => SelectQuery.yields_join hc

end TableQuery
