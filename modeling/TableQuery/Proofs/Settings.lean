import TableQuery.Proofs.InsertGrammar
import TableQuery.Proofs.Isolation

/-!
# What the settings decide

The settings of a reader only turn texts away. The limit on the length is checked before anything is
read and is then forgotten (`read_of_lt`, `read_congr`). The numbers of columns and values of an
`INSERT` are compared after everything else has been read, so that asking for the comparison changes
no refusal (`parse_eq_error_of_relaxed`) and changes a query only into the refusal of its values
(`exists_parse_strict`). All readers together: `settings_only_filter`.
-/

namespace TableQuery

open Text

/-! ## The limit on the length -/

namespace Statement

variable {α : Type} {text : String}

/-- A text beyond the limit is refused, whatever is read from it. -/
theorem read_of_lt {settings : Settings} (h : settings.maxLength < text.utf8ByteSize)
    (f : Piece → Except ParseError α) :
    (isolate settings text >>= f) = .error (tooLong text.utf8ByteSize settings.maxLength) := by
  have hlength : byteLength (Piece.ofString text 0).chars = text.utf8ByteSize :=
    byteLength_toList text
  rw [isolate, hlength, if_pos h]
  rfl

/-- A text is read in the same way under all limits that admit it. -/
theorem read_congr {settings settings' : Settings} (h : text.utf8ByteSize ≤ settings.maxLength)
    (h' : text.utf8ByteSize ≤ settings'.maxLength) (f : Piece → Except ParseError α) :
    (isolate settings text >>= f) = (isolate settings' text >>= f) := by
  rw [← byteLength_toList] at h h'
  rw [isolate_eq_ok_iff.2 ⟨h, rfl⟩, isolate_eq_ok_iff.2 ⟨h', rfl⟩]

/-- Only the limit decides what of a text is read. -/
theorem isolate_congr {settings settings' : Settings}
    (h : settings.maxLength = settings'.maxLength) :
    isolate settings text = isolate settings' text := by
  rw [isolate, isolate, h]

end Statement

/-! ## The numbers of columns and values -/

/-- A refusal of the first of two continuations is passed on if the second one has it too. -/
theorem bind_eq_error_of_imp {α β : Type} {x : Except ParseError α} {f g : α → Except ParseError β}
    {e : ParseError} (h : (x >>= f) = .error e) (hg : ∀ a, f a = .error e → g a = .error e) :
    (x >>= g) = .error e := by
  rcases bind_eq_error_iff.1 h with hx | ⟨a, hx, ha⟩
  · exact bind_eq_error_iff.2 (.inl hx)
  · exact bind_eq_error_iff.2 (.inr ⟨a, hx, hg a ha⟩)

namespace InsertQuery

/-- Whatever is refused without the comparison is refused with it, and for the same reason. -/
theorem parse_eq_error_of_relaxed {p : Piece} {e : ParseError} (h : parse false p = .error e)
    (arity : Bool) :
    parse arity p = .error e := by
  rw [parse] at h ⊢
  cases h₀ : (Cursor.ofPiece p).consume? .insertInto with
  | none => rwa [h₀] at h
  | some c₀ =>
    rw [h₀] at h
    refine bind_eq_error_of_imp h ?_
    rintro ⟨table, c₁⟩ h
    refine bind_eq_error_of_imp h ?_
    rintro ⟨columnList, c₂⟩ h
    dsimp only at h ⊢
    cases h₃ : c₂.skipBlanks.consume? .values with
    | none => rwa [h₃] at h
    | some c₃ =>
      rw [h₃] at h
      refine bind_eq_error_of_imp h ?_
      rintro ⟨valueList, c₄⟩ h
      refine bind_eq_error_of_imp h fun returning h => ?_
      refine bind_eq_error_of_imp h fun columns h => ?_
      refine bind_eq_error_of_imp h fun values h => ?_
      -- the comparison is the last step, and nothing is refused in its place
      cases h

/-- With the comparison, a query with as many columns as values is read as before, and of any other
the values are refused. -/
theorem exists_parse_strict {p : Piece} {q : InsertQuery} (h : parse false p = .ok q) :
    ∃ (t : Layout) (xs ys zs : List String) (values : Piece), t.chars = p.chars ∧
      t.Grammatical false xs ys zs ∧
      values.chars = trim t.values ∧
      parse true p = if q.columns.length = q.values.length then .ok q
        else .error (values.faultWhole (.arity q.columns.length q.values.length)) := by
  obtain ⟨w, cols, vals, tail, cs, vs, hr⟩ := parse_eq_ok_iff.1 h
  obtain ⟨t, xs, ys, zs, e, ht⟩ := hr.exists_layout
  obtain rfl : t.query xs ys zs = q := Except.ok.inj ((ht.parse_eq e).symm.trans h)
  have hreading := ht.reading
  rw [e] at hreading
  obtain ⟨values, hvalues, hstrict⟩ := hreading.parse_eq true
  refine ⟨t, xs, ys, zs, values, e, ht, hvalues, ?_⟩
  rw [hstrict]
  by_cases hcount : (t.query xs ys zs).columns.length = (t.query xs ys zs).values.length
  · rw [if_pos hcount, if_neg (by simp [hcount])]
  · rw [if_neg hcount, if_pos (by simpa using hcount)]

end InsertQuery

/-! ## All readers -/

/-- The settings only turn texts away. A text beyond the limit is refused by every reader, and under
all limits that admit it each reader gives the same. What an `INSERT` is read as without the
comparison of columns and values decides what it is read as with it; the other readers never
compare. -/
theorem settings_only_filter (text : String) :
    (∀ settings : Settings, settings.maxLength < text.utf8ByteSize →
      ∃ e : ParseError, e.kind = .inputTooLong ∧ e.start = settings.maxLength ∧
        e.stop = text.utf8ByteSize ∧
        SelectQuery.ofText settings text = .error e ∧ InsertQuery.ofText settings text = .error e ∧
        Join.ofText settings text = .error e ∧ Statement.ofText settings text = .error e) ∧
    (∀ settings settings' : Settings, settings.matchArity = settings'.matchArity →
      text.utf8ByteSize ≤ settings.maxLength → text.utf8ByteSize ≤ settings'.maxLength →
      SelectQuery.ofText settings text = SelectQuery.ofText settings' text ∧
        InsertQuery.ofText settings text = InsertQuery.ofText settings' text ∧
        Join.ofText settings text = Join.ofText settings' text ∧
        Statement.ofText settings text = Statement.ofText settings' text) ∧
    (∀ settings settings' : Settings, settings.maxLength = settings'.maxLength →
      SelectQuery.ofText settings text = SelectQuery.ofText settings' text ∧
        Join.ofText settings text = Join.ofText settings' text) ∧
    ∀ limit : Nat,
      (∀ e, InsertQuery.ofText ⟨limit, false⟩ text = .error e →
        InsertQuery.ofText ⟨limit, true⟩ text = .error e) ∧
      ∀ q, InsertQuery.ofText ⟨limit, false⟩ text = .ok q →
        (q.columns.length = q.values.length → InsertQuery.ofText ⟨limit, true⟩ text = .ok q) ∧
        (q.columns.length ≠ q.values.length →
          ∃ e, InsertQuery.ofText ⟨limit, true⟩ text = .error e ∧ e.kind = .arityMismatch ∧
            ∃ (p : Piece) (t : InsertQuery.Layout) (xs ys zs : List String),
              Statement.isolate ⟨limit, true⟩ text = .ok p ∧ t.chars = p.chars ∧
              t.Grammatical false xs ys zs ∧ e.text = String.ofList (trim t.values)) := by
  refine ⟨fun settings h => ?_, fun settings settings' harity h h' => ?_,
    fun settings settings' h => ?_, fun limit => ?_⟩
  · exact ⟨Statement.tooLong text.utf8ByteSize settings.maxLength, rfl, rfl, rfl,
      Statement.read_of_lt h _,
      Statement.read_of_lt h _, Statement.read_of_lt h _, Statement.read_of_lt h _⟩
  · have hstatement : Statement.parse settings = Statement.parse settings' := by
      funext p
      rw [Statement.parse, Statement.parse, harity]
    refine ⟨Statement.read_congr h h' _, ?_, Statement.read_congr h h' _, ?_⟩
    · rw [InsertQuery.ofText, InsertQuery.ofText, harity]
      exact Statement.read_congr h h' _
    · rw [Statement.ofText, Statement.ofText, hstatement]
      exact Statement.read_congr h h' _
  · rw [SelectQuery.ofText, SelectQuery.ofText, Join.ofText, Join.ofText, Statement.isolate_congr h]
    exact ⟨rfl, rfl⟩
  · have hsame : Statement.isolate ⟨limit, false⟩ text = Statement.isolate ⟨limit, true⟩ text :=
      Statement.isolate_congr rfl
    constructor
    · intro e he
      rw [InsertQuery.ofText, hsame] at he
      exact bind_eq_error_of_imp he fun p hp => InsertQuery.parse_eq_error_of_relaxed hp true
    · intro q hq
      rw [InsertQuery.ofText, hsame] at hq
      obtain ⟨p, hp, hq⟩ := bind_eq_ok_iff.1 hq
      obtain ⟨t, xs, ys, zs, values, e, ht, hvalues, hstrict⟩ := InsertQuery.exists_parse_strict hq
      rw [InsertQuery.ofText, bind_of_ok hp, hstrict]
      refine ⟨fun hcount => if_pos hcount, fun hcount => ?_⟩
      refine ⟨_, if_neg hcount, rfl, p, t, xs, ys, zs, hp, e, ht, ?_⟩
      rw [Piece.faultWhole_text, Piece.text, hvalues]

/-- Two columns and one value with a comma in it: read, refused for its values, and refused for its
length. -/
theorem settings_only_filter_counts :
    InsertQuery.ofText ⟨40, false⟩ "INSERT INTO t (a, b) VALUES ( 'x, y' );" =
      .ok ⟨"t", ["a", "b"], ["x, y"], []⟩ ∧
      (∃ e, InsertQuery.ofText ⟨40, true⟩ "INSERT INTO t (a, b) VALUES ( 'x, y' );" = .error e ∧
        e.kind = .arityMismatch) ∧
      (∃ e, InsertQuery.ofText ⟨20, true⟩ "INSERT INTO t (a, b) VALUES ( 'x, y' );" = .error e ∧
        e.kind = .inputTooLong ∧ e.start = 20 ∧ e.stop = 39) ∧
      InsertQuery.ofText ⟨40, false⟩ "INSERT INTO t (a, b) VALUES ( 'x, y' );" =
        InsertQuery.ofText ⟨60, false⟩ "INSERT INTO t (a, b) VALUES ( 'x, y' );" := by
  have hread : InsertQuery.ofText ⟨40, false⟩ "INSERT INTO t (a, b) VALUES ( 'x, y' );" =
      .ok ⟨"t", ["a", "b"], ["x, y"], []⟩ := by rfl
  obtain ⟨hlong, hlimits, -, hcounted⟩ :=
    settings_only_filter "INSERT INTO t (a, b) VALUES ( 'x, y' );"
  obtain ⟨-, hdiffer⟩ := (hcounted 40).2 _ hread
  obtain ⟨e, he, hkind, -⟩ := hdiffer (by decide)
  obtain ⟨e', hkind', hstart, hstop, -, he', -⟩ := hlong ⟨20, true⟩ (by decide)
  obtain ⟨-, hsame, -⟩ := hlimits ⟨40, false⟩ ⟨60, false⟩ rfl (by decide) (by decide)
  exact ⟨hread, ⟨e, he, hkind⟩, ⟨e', he', hkind', hstart, hstop⟩, hsame⟩

end TableQuery
