import TableQuery.Proofs.ErrorKinds
import TableQuery.Proofs.InsertRefusals

/-!
# Where each kind of error comes from

Lists, literals and the division into clauses are shared by all readers, but every reader is refused
only with kinds of its own: `SelectQuery.errorKinds`, `Join.errorKinds` and
`InsertQuery.errorKinds`. An unbalanced `SELECT` is refused for its delimiters, and a balanced one
for a malformed clause only where the division has found the keyword of that clause. That a
statement is not supported is found out only when its first word chooses the reader
(`error_kinds_confined`).
-/

namespace TableQuery

open Text

variable {p : Piece} {e : ParseError} {settings : Settings} {text : String}

/-- The kinds of error of reading a `SELECT`. -/
def SelectQuery.errorKinds : List ErrorKind :=
  [.inputTooLong, .unbalancedDelimiter, .duplicateClause, .malformedJoin, .malformedSelect,
    .emptyFieldList, .malformedCondition, .malformedGroupBy, .malformedOrderBy, .invalidLimit]

/-- The kinds of error of reading the join of a `SELECT`. -/
def Join.errorKinds : List ErrorKind :=
  [.inputTooLong, .unbalancedDelimiter, .duplicateClause, .malformedJoin]

/-- The kinds of error of reading an `INSERT`. -/
def InsertQuery.errorKinds : List ErrorKind :=
  [.inputTooLong, .unbalancedDelimiter, .malformedInsert, .arityMismatch]

/-! ## The readers of a piece -/

theorem ClauseKind.FoundIn.congr {k k' : ClauseKind} (h : k.FoundIn p) (hslot : k.slot = k'.slot) :
    k'.FoundIn p := by
  obtain ⟨m, hm, hoccurs, hk⟩ := h
  exact ⟨m, hm, hoccurs, hk.trans hslot⟩

namespace SelectQuery

theorem kinds_parse (p : Piece) :
    Yields (fun e => e.kind = .unbalancedDelimiter ∨ Refusal p e) (fun _ => True) (parse p) := by
  by_cases hb : Balanced p.chars
  · exact (refusals_parse hb).mono (fun _ => .inr) fun _ h => h
  · obtain ⟨e, he, hkind⟩ := Clauses.split_of_not_balanced hb
    rw [parse, he]
    exact .error (.inl hkind)

theorem Refusal.kind_mem (h : Refusal p e) : e.kind ∈ errorKinds := by
  have hothers : [.duplicateClause, .malformedSelect, .emptyFieldList] ⊆ errorKinds := by decide
  rcases h with hother | ⟨k, -, hkind⟩
  · exact hothers hother
  · rw [hkind]
    cases k <;> simp [ClauseKind.faultKind, errorKinds]

/-- No other part of a `SELECT` is refused with the kind of a clause. -/
theorem Refusal.foundIn {k : ClauseKind} (h : Refusal p e) (hk : e.kind = k.faultKind) :
    k.FoundIn p := by
  rcases h with hother | ⟨k', hfound, hkind⟩
  · rw [hk] at hother
    cases k <;> simp [ClauseKind.faultKind] at hother
  · exact hfound.congr (ClauseKind.slot_eq_of_faultKind_eq (hkind.symm.trans hk))

end SelectQuery

theorem Join.kinds_joinOf (p : Piece) :
    Yields (·.kind ∈ errorKinds) (fun _ => True) (Clauses.split p >>= SelectQuery.joinOf) := by
  by_cases hb : Balanced p.chars
  · have hkinds : ∀ e : ParseError, e.kind = .malformedJoin ∨ e.kind = .duplicateClause →
        e.kind ∈ errorKinds := by
      rintro e (he | he) <;> rw [he] <;> decide
    refine ((Clauses.kinds_split hb).mono hkinds fun _ h => h).bind fun c hc => ?_
    refine SelectQuery.yields_joinOf fun kind b hjoin => ?_
    have hbody := hc.2 (.join kind) b (Clauses.join_eq_some_iff.1 hjoin)
    exact (kinds_parse hbody kind).mono (fun e he => hkinds e (.inl he)) fun _ h => h
  · obtain ⟨e, he, hkind⟩ := Clauses.split_of_not_balanced hb
    rw [he]
    exact .error (by rw [hkind]; decide)

theorem InsertQuery.Refusal.kind_mem (h : Refusal p e) : e.kind ∈ errorKinds := by
  cases h with
  | list i j hrole he =>
    have hmissing : ∀ role ∈ [.insertColumns, .insertValues, .returning],
        ListRole.missingKind role = .malformedInsert := by decide
    rcases (ItemList.kinds_split_or _).of_error he with hkind | hkind
    · rw [hkind]
      decide
    · rw [hkind, hmissing _ hrole]
      decide
  | _ => simp [errorKinds, Fault.kind]

/-- A statement is refused by the reader that its first word chooses, or because it chooses none. -/
theorem Statement.refusals_parse (settings : Settings) (p : Piece) :
    Yields (fun e => e.kind = .unsupportedStatement ∨ SelectQuery.parse p = .error e ∨
      InsertQuery.parse settings.matchArity p = .error e) (fun _ => True) (parse settings p) := by
  unfold parse
  dsimp only
  split
  · exact (Yields.of_forall (fun e he => .inr (.inl he)) fun _ _ => trivial).map fun _ _ => trivial
  · split
    · exact (Yields.of_forall (fun e he => .inr (.inr he)) fun _ _ => trivial).map
        fun _ _ => trivial
    · exact .error (.inl rfl)

/-! ## Whole texts -/

theorem Statement.kinds_isolate :
    Yields (·.kind = .inputTooLong) (fun p => isolate settings text = .ok p)
      (isolate settings text) := by
  refine .of_forall (fun e he => ?_) fun p hp => hp
  rw [isolate] at he
  split at he
  · cases he
    rfl
  · cases he

/-- What reads a text is refused for its length or by what reads the statement in it. -/
theorem Statement.yields_read {α : Type} {E : ParseError → Prop} {f : Piece → Except ParseError α}
    (hlong : ∀ e : ParseError, e.kind = .inputTooLong → E e)
    (hread : ∀ p, isolate settings text = .ok p → Yields E (fun _ => True) (f p)) :
    Yields E (fun _ => True) (isolate settings text >>= f) :=
  (kinds_isolate.mono hlong fun _ h => h).bind hread

theorem Statement.refusals_ofText (h : ofText settings text = .error e) :
    e.kind = .unsupportedStatement ∨ SelectQuery.ofText settings text = .error e ∨
      InsertQuery.ofText settings text = .error e := by
  rw [SelectQuery.ofText, InsertQuery.ofText]
  rcases bind_eq_error_iff.1 h with hp | ⟨p, hp, h⟩
  · rw [hp]
    exact .inr (.inl rfl)
  · rw [bind_of_ok hp, bind_of_ok hp]
    exact (refusals_parse settings p).of_error h

theorem SelectQuery.kinds_ofText (settings : Settings) (text : String) :
    Yields (fun e => e.kind ∈ errorKinds ∧ ∀ k : ClauseKind, e.kind = k.faultKind →
      ∃ p, Statement.isolate settings text = .ok p ∧
        k.FoundIn p) (fun _ => True) (ofText settings text) := by
  have hshared : ∀ e : ParseError, e.kind = .inputTooLong ∨ e.kind = .unbalancedDelimiter →
      e.kind ∈ errorKinds ∧ ∀ k : ClauseKind, e.kind ≠ k.faultKind := by
    rintro e (he | he) <;> rw [he] <;> exact ⟨by decide, fun k hk => by cases k <;> cases hk⟩
  refine Statement.yields_read (fun e he => ?_) fun p hp => ?_
  · obtain ⟨hmem, hno⟩ := hshared e (.inl he)
    exact ⟨hmem, fun k hk => absurd hk (hno k)⟩
  · refine (kinds_parse p).mono ?_ fun _ h => h
    rintro e (he | hrefusal)
    · obtain ⟨hmem, hno⟩ := hshared e (.inr he)
      exact ⟨hmem, fun k hk => absurd hk (hno k)⟩
    · exact ⟨hrefusal.kind_mem, fun k hk => ⟨p, hp, hrefusal.foundIn hk⟩⟩

theorem Join.kinds_ofText (settings : Settings) (text : String) :
    Yields (·.kind ∈ errorKinds) (fun _ => True) (ofText settings text) :=
  Statement.yields_read (fun e he => by rw [he]; decide) fun p _ => kinds_joinOf p

theorem InsertQuery.kinds_ofText (settings : Settings) (text : String) :
    Yields (·.kind ∈ errorKinds) (fun _ => True) (ofText settings text) :=
  Statement.yields_read (fun e he => by rw [he]; decide) fun p _ =>
    (refusals_parse _ p).mono (fun _ he => he.kind_mem) fun _ h => h

/-- Errors are confined to their reader: each of the three readers is refused only with its own
kinds, a `SELECT` for a malformed clause only where the keyword of the clause was found in the
statement, and only the general reader calls a statement unsupported. -/
theorem error_kinds_confined (settings : Settings) (text : String) :
    (∀ e, SelectQuery.ofText settings text = .error e → e.kind ∈ SelectQuery.errorKinds ∧
      ∀ k : ClauseKind, e.kind = k.faultKind →
        ∃ p, Statement.isolate settings text = .ok p ∧ k.FoundIn p) ∧
      (∀ e, Join.ofText settings text = .error e → e.kind ∈ Join.errorKinds) ∧
      (∀ e, InsertQuery.ofText settings text = .error e → e.kind ∈ InsertQuery.errorKinds) ∧
      (∀ e, e.kind = .unsupportedStatement → SelectQuery.ofText settings text ≠ .error e ∧
        Join.ofText settings text ≠ .error e ∧ InsertQuery.ofText settings text ≠ .error e) ∧
      ∀ e, Statement.ofText settings text = .error e → e.kind = .unsupportedStatement ∨
        SelectQuery.ofText settings text = .error e ∨
        InsertQuery.ofText settings text = .error e := by
  have hselect := fun e => (SelectQuery.kinds_ofText settings text).of_error (e := e)
  have hjoin := fun e => (Join.kinds_ofText settings text).of_error (e := e)
  have hinsert := fun e => (InsertQuery.kinds_ofText settings text).of_error (e := e)
  refine ⟨hselect, hjoin, hinsert, fun e hkind => ?_, fun e => Statement.refusals_ofText⟩
  refine ⟨fun he => absurd (hselect e he).1 ?_, fun he => absurd (hjoin e he) ?_,
    fun he => absurd (hinsert e he) ?_⟩ <;> rw [hkind] <;> decide

/-- A condition without an operator, a join without a condition, two values for one column, and a
statement that is neither a `SELECT` nor an `INSERT`. -/
theorem error_kinds_confined_condition :
    (∃ e p, SelectQuery.ofText {} "SELECT a FROM t WHERE b" = .error e ∧
      e.kind = .malformedCondition ∧
      Statement.isolate {} "SELECT a FROM t WHERE b" = .ok p ∧ ClauseKind.whereRows.FoundIn p) ∧
      (∃ e, Join.ofText {} "SELECT a FROM t INNER JOIN u" = .error e ∧ e.kind ∈ Join.errorKinds) ∧
      (∃ e, InsertQuery.ofText {} "INSERT INTO t (a) VALUES (1, 2)" = .error e ∧
        e.kind ∈ InsertQuery.errorKinds) ∧
      ∃ e, Statement.ofText {} "DELETE FROM t" = .error e ∧ e.kind = .unsupportedStatement ∧
        SelectQuery.ofText {} "DELETE FROM t" ≠ .error e := by
  have hcondition : ∃ e, SelectQuery.ofText {} "SELECT a FROM t WHERE b" = .error e ∧
      e.kind = .malformedCondition := ⟨_, rfl, rfl⟩
  have hjoin : ∃ e, Join.ofText {} "SELECT a FROM t INNER JOIN u" = .error e := ⟨_, rfl⟩
  have hinsert : ∃ e, InsertQuery.ofText {} "INSERT INTO t (a) VALUES (1, 2)" = .error e := ⟨_, rfl⟩
  have hdelete :
      ∃ e, Statement.ofText {} "DELETE FROM t" = .error e ∧ e.kind = .unsupportedStatement :=
    ⟨_, rfl, rfl⟩
  obtain ⟨e₁, he₁, hkind₁⟩ := hcondition
  obtain ⟨e₂, he₂⟩ := hjoin
  obtain ⟨e₃, he₃⟩ := hinsert
  obtain ⟨e₄, he₄, hkind₄⟩ := hdelete
  obtain ⟨p, hp, hfound⟩ := ((error_kinds_confined {} _).1 e₁ he₁).2 .whereRows hkind₁
  exact ⟨⟨e₁, p, he₁, hkind₁, hp, hfound⟩, ⟨e₂, he₂, (error_kinds_confined {} _).2.1 e₂ he₂⟩,
    ⟨e₃, he₃, (error_kinds_confined {} _).2.2.1 e₃ he₃⟩,
    ⟨e₄, he₄, hkind₄, ((error_kinds_confined {} _).2.2.2.1 e₄ hkind₄).1⟩⟩

end TableQuery
