import TableQuery.Proofs.StatementRendering

/-!
# One statement, four readers

A text is told to be a `SELECT` or an `INSERT` by its first word, while the reader of each kind
looks for its own keyword, that of a `SELECT` only in the head that is left once the clauses are cut
off. The two ways agree: a statement that the reader of a kind accepts starts with the first word of
that kind (`word_of_select`, `word_of_insert`), because what is isolated starts with no blank, the
head is the front of it, and a keyword ends in front of a blank, which is no character of a word. So
the general reader accepts what one of the two accepts, and at most one of them does
(`entry_points_agree`).
-/

namespace TableQuery

open Text

/-! ## The first word -/

namespace Spelling

/-- The first word of a spelling that a blank follows is spelled by the first word of the text. -/
theorem Spells.firstWord {w x r : List Char} {ws : List (List Char)} (h : Spells (w :: ws) x)
    (hw : IsWord w) (hr : ∃ b y, r = b :: y ∧ isBlank b = true) :
    ((x ++ r).takeWhile isNameChar).map Char.toUpper = w := by
  have key : ∀ {u z : List Char} {b : Char}, u.map Char.toUpper = w → isBlank b = true →
      ((u ++ b :: z).takeWhile isNameChar).map Char.toUpper = w := by
    intro u z b hu hb
    have hname : ∀ c ∈ u, isNameChar c = true := fun c hc =>
      isNameChar_of_isUpper_toUpper (hw.2 _ (hu ▸ List.mem_map.2 ⟨c, hc, rfl⟩))
    rw [takeWhile_isNameChar hname hb, hu]
  cases h with
  | word hu =>
    obtain ⟨b, y, rfl, hb⟩ := hr
    exact key hu hb
  | cons hu hne hblank _ =>
    obtain ⟨b, g, rfl⟩ := List.exists_cons_of_ne_nil hne
    rw [List.append_assoc, List.append_assoc, List.cons_append]
    exact key hu (hblank b List.mem_cons_self)

end Spelling

/-- A keyword behind which a blank must stand is spelled by the first word of a text that it
starts. -/
theorem Keyword.firstWord_of_match? {k : Keyword} {x w : List Char} {ws : List (List Char)}
    {n : Nat} (h : k.match? x = some n) (hwords : k.spelling.words = w :: ws)
    (hend : k.canEnd = false) (hbefore : k.spelling.before = none) (y : List Char) :
    ((x ++ y).takeWhile isNameChar).map Char.toUpper = w := by
  obtain ⟨u, r, rfl, hu, ha, -⟩ := match?_eq_some_iff_spells.1 h
  have hw := k.isWord_of_mem_words w (by rw [hwords]; exact List.mem_cons_self)
  rw [hwords] at hu
  obtain ⟨b, z, rfl, hb⟩ : ∃ b z, r = b :: z ∧ isBlank b = true := by
    cases r with
    | nil =>
      have e : k.spelling.allows [] = k.canEnd := rfl
      rw [e, hend] at ha
      cases ha
    | cons b z =>
      have hblank : k.spelling.beforeBlank = true := rfl
      exact ⟨b, z, rfl, by simpa [Spelling.allows, hbefore, hblank] using ha⟩
  rw [List.append_assoc]
  exact hu.firstWord hw ⟨b, z ++ y, rfl, hb⟩

/-- The head is the front of a statement that starts with no blank. -/
theorem Clauses.head_of_split {p : Piece} {c : Clauses}
    (hp : ∀ d ∈ p.chars.head?, isBlank d = false) (h : split p = .ok c) :
    ∃ y, p.chars = c.head.chars ++ y := by
  obtain ⟨_, -, h⟩ := bind_eq_ok_iff.1 h
  obtain ⟨stop, hhead⟩ : ∃ stop, c.head.chars = trim (p.chars.take stop) :=
    ⟨_, congrArg Piece.chars
      (fill_bodies (P := fun _ => True) (fun _ _ _ _ => trivial) (fun _ _ _ => trivial) h).1⟩
  have hfront : ∀ d ∈ (p.chars.take stop).head?, isBlank d = false := by
    intro d hd
    rw [List.head?_take] at hd
    split at hd
    · cases hd
    · exact hp d hd
  obtain ⟨b, -, hb⟩ := exists_trimEnd_blank (p.chars.take stop)
  refine ⟨b ++ p.chars.drop stop, ?_⟩
  rw [hhead, trim, trimStart_eq_self hfront, ← List.append_assoc, ← hb, List.take_append_drop]

namespace Statement

theorem tight_of_isolate {settings : Settings} {text : String} {p : Piece}
    (h : isolate settings text = .ok p) :
    Tight p.chars := by
  obtain ⟨-, rfl⟩ := isolate_eq_ok_iff.1 h
  have htight : Tight ((Piece.ofString text 0).rest 0).chars := by
    rw [chars_rest_ofString]
    exact tight_trim _
  generalize (Piece.ofString text 0).rest 0 = q at htight
  unfold dropSemicolon
  split
  · rename_i hlast
    obtain ⟨x, hx⟩ := List.getLast?_eq_some_iff.1 hlast
    obtain ⟨b, -, hb⟩ := exists_trimEnd_blank x
    dsimp only
    rw [hx, List.dropLast_concat]
    refine ⟨fun c hc => htight.head c ?_, getLast?_trimEnd x⟩
    rw [hx, hb, List.append_assoc, List.head?_append, hc]
    rfl
  · exact htight

/-- A `SELECT` starts with its word. -/
theorem word_of_select {p : Piece} {q : SelectQuery} (hp : Tight p.chars)
    (h : SelectQuery.parse p = .ok q) :
    (p.chars.takeWhile isNameChar).map Char.toUpper = "SELECT".toList := by
  obtain ⟨c, head, hr⟩ := SelectQuery.parse_eq_ok_iff.1 h
  obtain ⟨y, e⟩ := Clauses.head_of_split hp.head hr.split
  obtain ⟨cursor, hselect, -⟩ := SelectHead.parse_eq_ok_iff.1 hr.head
  obtain ⟨m, z, -, hm, -⟩ := Cursor.consume?_eq_some (Cursor.between_ofPiece c.head) hselect
  rw [e]
  exact Keyword.firstWord_of_match? hm rfl rfl rfl y

/-- An `INSERT` starts with its word. -/
theorem word_of_insert {arity : Bool} {p : Piece} {q : InsertQuery}
    (h : InsertQuery.parse arity p = .ok q) :
    (p.chars.takeWhile isNameChar).map Char.toUpper = "INSERT".toList := by
  obtain ⟨w, cols, vals, tail, xs, ys, hr⟩ := InsertQuery.parse_eq_ok_iff.1 h
  obtain ⟨y, -, -, -, ⟨m, -, hm⟩, -⟩ := hr.laidOut
  have hword := Keyword.firstWord_of_match? hm rfl rfl rfl []
  rwa [List.append_nil] at hword

/-! ## Agreement -/

theorem ofText_select_iff {settings : Settings} {text : String} {q : SelectQuery} :
    ofText settings text = .ok (.select q) ↔ SelectQuery.ofText settings text = .ok q := by
  refine ⟨selectOfText_of_ofText, fun h => ?_⟩
  obtain ⟨p, hp, hq⟩ := bind_eq_ok_iff.1 h
  refine bind_eq_ok_iff.2 ⟨p, hp, ?_⟩
  simp only [parse]
  rw [if_pos (word_of_select (tight_of_isolate hp) hq), hq]
  rfl

theorem ofText_insert_iff {settings : Settings} {text : String} {q : InsertQuery} :
    ofText settings text = .ok (.insert q) ↔ InsertQuery.ofText settings text = .ok q := by
  refine ⟨insertOfText_of_ofText, fun h => ?_⟩
  obtain ⟨p, hp, hq⟩ := bind_eq_ok_iff.1 h
  have hword := word_of_insert hq
  have hne : ¬"INSERT".toList = "SELECT".toList := by decide
  refine bind_eq_ok_iff.2 ⟨p, hp, ?_⟩
  simp only [parse]
  rw [hword, if_neg hne, if_pos rfl, hq]
  rfl

end Statement

theorem Join.ofText_of_select {settings : Settings} {text : String} {q : SelectQuery}
    (h : SelectQuery.ofText settings text = .ok q) : Join.ofText settings text = .ok q.join := by
  obtain ⟨p, hp, hq⟩ := bind_eq_ok_iff.1 h
  obtain ⟨c, head, hr⟩ := SelectQuery.parse_eq_ok_iff.1 hq
  exact bind_eq_ok_iff.2 ⟨p, hp, bind_eq_ok_iff.2 ⟨c, hr.split, hr.join⟩⟩

/-- The readers of a text agree: the general one accepts as a `SELECT` or as an `INSERT` what the
reader of that kind accepts, no text is both, an unsupported statement is neither, and the join that
is read alone is that of the whole query. -/
theorem entry_points_agree (settings : Settings) (text : String) :
    (∀ q, Statement.ofText settings text = .ok (.select q) ↔
      SelectQuery.ofText settings text = .ok q) ∧
      (∀ q, Statement.ofText settings text = .ok (.insert q) ↔
        InsertQuery.ofText settings text = .ok q) ∧
      (¬∃ q q', SelectQuery.ofText settings text = .ok q ∧
        InsertQuery.ofText settings text = .ok q') ∧
      (∀ e, Statement.ofText settings text = .error e → e.kind = .unsupportedStatement →
        (∃ e', SelectQuery.ofText settings text = .error e') ∧
          ∃ e', InsertQuery.ofText settings text = .error e') ∧
      ∀ q, SelectQuery.ofText settings text = .ok q → Join.ofText settings text = .ok q.join := by
  refine ⟨fun q => Statement.ofText_select_iff, fun q => Statement.ofText_insert_iff, ?_, ?_,
    fun q => Join.ofText_of_select⟩
  · rintro ⟨q, q', hq, hq'⟩
    have h := Statement.ofText_select_iff.2 hq
    rw [Statement.ofText_insert_iff.2 hq'] at h
    cases h
  · intro e he _
    constructor
    · cases hq : SelectQuery.ofText settings text with
      | error e' => exact ⟨e', rfl⟩
      | ok q =>
        rw [Statement.ofText_select_iff.2 hq] at he
        cases he
    · cases hq : InsertQuery.ofText settings text with
      | error e' => exact ⟨e', rfl⟩
      | ok q =>
        rw [Statement.ofText_insert_iff.2 hq] at he
        cases he

/-- A join behind a wide space, and a first word of another kind. -/
theorem entry_points_agree_join :
    Statement.ofText {} "select a from t\u2003left join u on t.x = u.y;" =
        .ok (.select ⟨["a"], "t", some ⟨.left, "u", "t.x", "u.y"⟩, [], none, false, none,
          none, false⟩) ∧
      Join.ofText {} "select a from t\u2003left join u on t.x = u.y;" =
        .ok (some ⟨.left, "u", "t.x", "u.y"⟩) ∧
      ∃ e, SelectQuery.ofText {} "delete from t" = .error e := by
  have hq : SelectQuery.ofText {} "select a from t\u2003left join u on t.x = u.y;" =
      .ok ⟨["a"], "t", some ⟨.left, "u", "t.x", "u.y"⟩, [], none, false, none, none, false⟩ := by
    rfl
  have he : Statement.ofText {} "delete from t" =
      .error ⟨.unsupportedStatement, "Only SELECT and INSERT INTO statements are supported",
        "delete", 0, 6⟩ := by rfl
  obtain ⟨hselect, -, -, -, hjoin⟩ :=
    entry_points_agree {} "select a from t\u2003left join u on t.x = u.y;"
  obtain ⟨-, -, -, hunsupported, -⟩ := entry_points_agree {} "delete from t"
  exact ⟨(hselect _).2 hq, hjoin _ hq, (hunsupported _ he rfl).1⟩

end TableQuery
