import TableQuery.Proofs.ClauseOccurrences
import TableQuery.Proofs.InsertParts
import TableQuery.Proofs.Isolation
import TableQuery.Proofs.Join
import TableQuery.Proofs.SelectHead
import TableQuery.Proofs.SortKey
import TableQuery.Proofs.Where

/-!
# Kinds of errors in balanced texts

In a balanced piece every search comes to an end, and whatever a reader cuts out of it is balanced
again. So each reader refuses a balanced piece only with the kind of mistake that is its own: a list
for a missing item, a join as a malformed join, and so on (`kinds_split`, `kinds_parse`). A balanced
`SELECT` is refused with the kind of a clause only if a keyword of that clause was found
(`SelectQuery.refusals_parse`).

Delimiters are therefore decided by the division into clauses, before anything else is read: a
`SELECT` is refused for its delimiters exactly if it is not balanced, and an `INSERT` that is read
is balanced (`delimiters_decided_first`).
-/

namespace TableQuery

open Text Outline

variable {p : Piece}

/-! ## Balanced pieces -/

/-- In an outline without an open literal every search ends. -/
theorem Piece.yields_search_of_terminated {α : Type} {E : ParseError → Prop} {o : Outline}
    (h : o.unterminated? = none) (f : Site → Option α) :
    Yields E (fun a => a = o.sites.findSome? f) (p.search o f) :=
  Piece.yields_search fun i hi => by rw [h] at hi; cases hi

theorem Balanced.unterminated? {x : List Char} (h : Balanced x) (i : Nat) (b : Option Char) :
    (Outline.ofPlace (.start i b) x).unterminated? = none :=
  (h.advance (Place.fresh_start i b x)).1.terminated

theorem Balanced.outline (h : Balanced p.chars) : p.outline.unterminated? = none := by
  rw [Piece.outline_eq]
  exact h.unterminated? 0 none

/-! ## Lists -/

namespace ItemList

theorem kinds_itemIn (role : ListRole) (i j : Nat) :
    Yields (·.kind = role.missingKind) (fun _ => True) (itemIn p role i j) := by
  unfold itemIn
  dsimp only
  split
  · exact .error rfl
  · exact .ok trivial

/-- The walk is refused for a parenthesis that closes none, or for a missing item. -/
theorem kinds_itemsFrom (role : ListRole) (sites : List Site) (first : Nat) :
    Yields (fun e => (e.kind = .unbalancedDelimiter ∧ ∃ s ∈ sites, s.isTop ')' = true) ∨
      e.kind = role.missingKind) (fun _ => True) (itemsFrom p role first sites) := by
  induction sites generalizing first with
  | nil => exact .ok trivial
  | cons s r ih =>
    have hmore : ∀ e : ParseError,
        (e.kind = .unbalancedDelimiter ∧ ∃ s ∈ r, s.isTop ')' = true) ∨ e.kind = role.missingKind →
        (e.kind = .unbalancedDelimiter ∧ ∃ t ∈ s :: r, t.isTop ')' = true) ∨
          e.kind = role.missingKind :=
      fun e => Or.imp_left fun ⟨hk, t, ht, hc⟩ => ⟨hk, t, List.mem_cons_of_mem s ht, hc⟩
    rw [itemsFrom]
    split
    · rename_i hs
      exact .error (.inl ⟨rfl, s, List.mem_cons_self, hs⟩)
    · split
      · refine ((kinds_itemIn role first s.index).mono (fun _ => .inr) fun _ h => h).bind
          fun q _ => ?_
        exact ((ih (s.index + 1)).mono hmore fun _ h => h).bind fun a _ => .ok trivial
      · exact (ih first).mono hmore fun _ h => h

/-- A list is refused for its delimiters or for a missing item. -/
theorem kinds_split_or (role : ListRole) :
    Yields (fun e => e.kind = .unbalancedDelimiter ∨ e.kind = role.missingKind) (fun _ => True)
      (split p role) := by
  unfold split
  dsimp only
  split
  · exact .error (.inr rfl)
  · refine ((kinds_itemsFrom role _ 0).mono (fun _ => Or.imp_left And.left) fun _ h => h).bind
      fun a _ => ?_
    refine (Piece.yields_requireTerminated fun i _ => .inl rfl).bind fun _ _ => ?_
    refine (Piece.yields_requireClosed fun i _ => .inl rfl).bind fun _ _ => ?_
    exact ((kinds_itemIn role a.2 p.length).mono (fun _ => .inr) fun _ h => h).bind
      fun _ _ => .ok trivial

/-- A balanced list is refused only for a missing item. -/
theorem kinds_split (h : Balanced p.chars) (role : ListRole) :
    Yields (·.kind = role.missingKind) (fun items => ∀ q ∈ items, Balanced q.chars)
      (split p role) := by
  have hrefused : Yields (·.kind = role.missingKind) (fun _ => True) (split p role) := by
    unfold split
    dsimp only
    split
    · exact .error rfl
    · rw [Piece.sites_outline, Piece.requireTerminated_eq_ok_iff.2 h.outline, Piece.outline_eq,
        Piece.requireClosed_eq_ok_iff.2 h.closed]
      have hopened : Yields (·.kind = role.missingKind) (fun _ => True)
          (itemsFrom p role 0 (sitesFrom (.start 0 none) p.chars)) := by
        refine (kinds_itemsFrom role _ 0).mono ?_ fun _ h => h
        rintro e (⟨-, s, hs, hc⟩ | he)
        · rw [h.opened s hs] at hc
          cases hc
        · exact he
      refine hopened.bind fun a _ => ?_
      exact (kinds_itemIn role a.2 p.length).bind fun _ _ => .ok trivial
  refine .of_forall (fun e => hrefused.of_error) fun items hi q hq => ?_
  have hlisted := split_eq_ok_iff.1 ⟨items, hi, rfl⟩
  exact (hlisted.items.2 q.chars (List.mem_map.2 ⟨q, hq, rfl⟩)).toBalanced

theorem kinds_parse (h : Balanced p.chars) (role : ListRole) :
    Yields (·.kind = role.missingKind) (fun _ => True) (parse p role) :=
  (kinds_split h role).bind fun _ _ => .ok trivial

end ItemList

/-! ## Parts of a `SELECT` -/

namespace ClauseKind

/-- The kind of mistake that a malformed clause is. -/
def faultKind : ClauseKind → ErrorKind
  | orderBy => .malformedOrderBy
  | groupBy => .malformedGroupBy
  | limit => .invalidLimit
  | whereRows => .malformedCondition
  | join _ => .malformedJoin

/-- Only clauses that share a slot share their kind of mistake. -/
theorem slot_eq_of_faultKind_eq {k k' : ClauseKind} (h : k.faultKind = k'.faultKind) :
    k.slot = k'.slot := by
  cases k <;> cases k' <;> first | rfl | cases h

/-- The division of the statement finds a keyword for the slot of the clause. -/
def FoundIn (k : ClauseKind) (p : Piece) : Prop :=
  ∃ m ∈ p.outline.sites.filterMap ClauseStart.ofSite?, m.OccursIn p.chars ∧ m.slot = k.slot

theorem foundIn_of_mem {m : ClauseStart} {k : ClauseKind} (hb : Balanced p.chars)
    (hm : m ∈ (sitesFrom (.start 0 none) p.chars).filterMap ClauseStart.ofSite?)
    (hk : m.slot = k.slot) :
    k.FoundIn p := by
  refine ⟨m, ?_, (ClauseStart.mem_marks_iff hb).1 hm, hk⟩
  rwa [Piece.sites_outline]

end ClauseKind

namespace Clauses

/-- A balanced statement is refused by its division only for a slot that is taken, and thus for a
join only where one is found. -/
theorem refusals_split (h : Balanced p.chars) :
    Yields (fun e => (e.kind = .malformedJoin ∧ (ClauseKind.join .inner).FoundIn p) ∨
        e.kind = .duplicateClause)
      (fun c => Divided p ((sitesFrom (.start 0 none) p.chars).filterMap ClauseStart.ofSite?) c)
      (split p) := by
  by_cases hn :
      (((sitesFrom (.start 0 none) p.chars).filterMap ClauseStart.ofSite?).map
        ClauseStart.slot).Nodup
  · obtain ⟨c, hc, hdivided⟩ := split_of_nodup h rfl hn
    rw [hc]
    exact .ok hdivided
  · obtain ⟨front, m, back, hmarks, -, -, hs⟩ := split_of_repeated h rfl hn
    have hmem : m ∈ (sitesFrom (.start 0 none) p.chars).filterMap ClauseStart.ofSite? := by
      rw [hmarks]
      exact List.mem_append_right front List.mem_cons_self
    rw [hs]
    refine .error ?_
    rw [repeated_kind]
    split
    · rename_i hslot
      exact .inl ⟨rfl, ClauseKind.foundIn_of_mem h hmem hslot⟩
    · exact .inr rfl

/-- A clause among those of a statement was found in it. -/
theorem foundIn_of_split {c : Clauses} {k : ClauseKind} {b : Piece} (h : split p = .ok c)
    (hk : c.body? k = some b) : k.FoundIn p := by
  have hbalanced := (balanced_of_split h).1
  have hdivided := (refusals_split hbalanced).of_ok h
  by_cases hmem :
      k ∈ ((sitesFrom (.start 0 none) p.chars).filterMap ClauseStart.ofSite?).map ClauseStart.kind
  · obtain ⟨m, hm, rfl⟩ := List.mem_map.1 hmem
    exact ClauseKind.foundIn_of_mem hbalanced hm rfl
  · rw [hdivided.body?_eq_none hmem] at hk
    cases hk

/-- A balanced statement is refused by its division only for a slot that is taken. -/
theorem kinds_split (h : Balanced p.chars) :
    Yields (fun e => e.kind = .malformedJoin ∨ e.kind = .duplicateClause)
      (fun c => Balanced c.head.chars ∧ ∀ k b, c.body? k = some b → Balanced b.chars)
      (split p) := by
  refine .of_forall (fun e he => ((refusals_split h).of_error he).imp_left And.left) fun c hc => ?_
  obtain ⟨-, hhead, hbody, -⟩ := balanced_of_split hc
  exact ⟨hhead, fun k b hb => (hbody k b hb).1⟩

end Clauses

theorem SelectHead.kinds_parse (h : Balanced p.chars) :
    Yields (·.kind = .malformedSelect) (fun head => Balanced head.fields.chars) (parse p) := by
  have hrefused : Yields (·.kind = .malformedSelect) (fun _ => True) (parse p) := by
    unfold parse
    split
    · rename_i c hc
      obtain ⟨u, x, hchars, hu, hne, hposition⟩ := exists_plain_front hc
      have hx : Balanced x := by
        rw [hchars] at h
        exact h.right ((seam_nil _).plain hu hne)
      dsimp only [fromRange]
      rw [hposition, Piece.outlineFrom_of_eq hchars rfl]
      refine (Piece.yields_search_of_terminated (hx.unterminated? _ _) _).bind fun range _ => ?_
      split
      · split
        · exact .error rfl
        · exact .ok trivial
      · exact .error rfl
    · exact .error rfl
  exact .of_forall (fun e => hrefused.of_error) fun head hp => fields_of_parse hp h

namespace Join

theorem kinds_reference (c : Cursor) :
    Yields (·.kind = .malformedJoin) (fun _ => True) (reference c) := by
  unfold reference
  dsimp only
  split
  · exact .error rfl
  · exact .ok trivial

theorem kinds_equality (c : Cursor) :
    Yields (·.kind = .malformedJoin) (fun _ => True) (equality c) := by
  unfold equality
  refine (kinds_reference _).bind fun a _ => ?_
  dsimp only
  split
  · exact .error rfl
  · refine (kinds_reference _).bind fun b _ => ?_
    split
    · exact .error rfl
    · exact .ok trivial

/-- A body whose literals end is refused only as a malformed join. -/
theorem kinds_parse_of_terminated (h : p.outline.unterminated? = none) (kind : JoinKind) :
    Yields (·.kind = .malformedJoin) (fun _ => True) (parse kind p) := by
  unfold parse
  refine (Piece.yields_search_of_terminated h _).bind fun range _ => ?_
  split
  · dsimp only
    split
    · exact .error rfl
    · exact (kinds_equality _).bind fun _ _ => .ok trivial
  · exact .error rfl

theorem kinds_parse (h : Balanced p.chars) (kind : JoinKind) :
    Yields (·.kind = .malformedJoin) (fun _ => True) (parse kind p) :=
  kinds_parse_of_terminated h.outline kind

end Join

namespace Condition

/-- Whatever is wrong with a condition, the whole of it is refused. -/
theorem refusals_ofParts (operator : Operator) (i j : Nat) :
    Yields (fun e => ∃ f : Fault, f.kind = .malformedCondition ∧ e = p.faultWhole f) (fun _ => True)
      (ofParts p operator i j) := by
  unfold ofParts
  dsimp only
  split
  · exact .error ⟨_, rfl, rfl⟩
  · split
    · exact .error ⟨_, rfl, rfl⟩
    · exact .ok trivial

theorem refusals_parse (h : p.outline.unterminated? = none) :
    Yields (fun e => ∃ f : Fault, f.kind = .malformedCondition ∧ e = p.faultWhole f) (fun _ => True)
      (parse p) := by
  unfold parse
  refine (Piece.yields_search_of_terminated h _).bind fun range _ => ?_
  split
  · exact refusals_ofParts _ _ _
  · refine (Piece.yields_search_of_terminated h _).bind fun range _ => ?_
    split
    · exact refusals_ofParts _ _ _
    · exact .error ⟨_, rfl, rfl⟩

theorem kinds_parse (h : Balanced p.chars) :
    Yields (·.kind = .malformedCondition) (fun _ => True) (parse p) := by
  refine (refusals_parse h.outline).mono ?_ fun _ h => h
  rintro _ ⟨f, hf, rfl⟩
  exact hf

end Condition

namespace Where

theorem kinds_conditionIn (i j n : Nat) :
    Yields (·.kind = .malformedCondition) (fun _ => True) (conditionIn p i j n) := by
  unfold conditionIn
  dsimp only
  split
  · exact .error rfl
  · exact .ok trivial

theorem kinds_fragmentsFrom (sites : List Site) (first : Nat) :
    Yields (·.kind = .malformedCondition) (fun _ => True) (fragmentsFrom p first sites) := by
  induction sites generalizing first with
  | nil => exact .ok trivial
  | cons s r ih =>
    unfold fragmentsFrom
    split
    · refine (kinds_conditionIn _ _ _).bind fun q _ => ?_
      exact (ih _).bind fun a _ => .ok trivial
    · exact ih first

/-- A body whose literals end is refused only for a missing condition. -/
theorem kinds_split_of_terminated (h : p.outline.unterminated? = none) :
    Yields (·.kind = .malformedCondition) (fun _ => True) (split p) := by
  unfold split
  dsimp only
  split
  · exact .error rfl
  · rw [Piece.requireTerminated_eq_ok_iff.2 h]
    refine (kinds_fragmentsFrom _ _).bind fun a _ => ?_
    exact (kinds_conditionIn _ _ _).bind fun _ _ => .ok trivial

theorem kinds_split (h : Balanced p.chars) :
    Yields (·.kind = .malformedCondition) (fun fragments => ∀ f ∈ fragments, Balanced f.chars)
      (split p) := by
  refine .of_forall (fun e => (kinds_split_of_terminated h.outline).of_error)
    fun fragments hf f hmem => ?_
  exact (balanced_of_split hf h f hmem).1

theorem kinds_parse (h : Balanced p.chars) :
    Yields (·.kind = .malformedCondition) (fun _ => True) (parse p) := by
  refine (kinds_split h).bind fun fragments hf => ?_
  exact (Yields.mapM fun f hmem => Condition.kinds_parse (hf f hmem)).mono (fun _ h => h)
    fun _ _ => trivial

end Where

namespace SortKey

/-- The field of a balanced entry is balanced, since only blanks and a direction follow it. -/
theorem balanced_divide {cs : List Char} (h : Balanced cs) : Balanced (divide cs).1 := by
  rcases divide_cases cs with e | ⟨g, w, -, hg, hw, e, -⟩
  · rwa [e]
  · rw [e] at h
    exact h.of_append_plain ((plain_of_blank hg).append (plain_of_ofWord? hw))

/-- Looking for a blank in a balanced field does not fail. -/
theorem yields_hasTopBlank {E : ParseError → Prop} (h : Balanced p.chars) :
    Yields E (fun _ => True) (hasTopBlank p) :=
  (Piece.yields_search_of_terminated h.outline _).bind fun _ _ => .ok trivial

/-- A balanced entry is refused as a whole. -/
theorem refusals_parseItem (h : Balanced p.chars) :
    Yields (fun e => e = p.faultWhole .notSortKey) (fun _ => True) (parseItem p) := by
  unfold parseItem
  dsimp only
  refine (yields_hasTopBlank (balanced_divide h)).bind fun found _ => ?_
  split
  · exact .error rfl
  · exact .ok trivial

theorem kinds_parseItem (h : Balanced p.chars) :
    Yields (·.kind = .malformedOrderBy) (fun _ => True) (parseItem p) := by
  refine (refusals_parseItem h).mono ?_ fun _ h => h
  rintro _ rfl
  rfl

theorem kinds_parse (h : Balanced p.chars) :
    Yields (·.kind = .malformedOrderBy) (fun _ => True) (parse p) := by
  refine (ItemList.kinds_split h .orderBy).bind fun items hi => ?_
  exact (Yields.mapM fun q hq => kinds_parseItem (hi q hq)).mono (fun _ h => h) fun _ _ => trivial

end SortKey

theorem Limit.kinds_parse : Yields (·.kind = .invalidLimit) (fun _ => True) (Limit.parse p) := by
  unfold Limit.parse
  split
  · exact .ok trivial
  · exact .error rfl

/-! ## Delimiters -/

/-- The computation is not refused for an open literal or a parenthesis. -/
def NeverUnbalanced {α : Type} (outcome : Except ParseError α) : Prop :=
  ∀ e, outcome = .error e → e.kind ≠ .unbalancedDelimiter

theorem Yields.neverUnbalanced {α : Type} {k : ErrorKind} {Q : α → Prop} {x : Except ParseError α}
    (h : Yields (·.kind = k) Q x) (hk : k ≠ .unbalancedDelimiter) : NeverUnbalanced x := by
  intro e he
  rw [h.of_error he]
  exact hk

/-- Nothing that is read behind the division of a statement is refused for its delimiters. -/
structure Clauses.Delimited (c : Clauses) : Prop where
  head : NeverUnbalanced (SelectHead.parse c.head)
  fields : ∀ head, SelectHead.parse c.head = .ok head →
    NeverUnbalanced (ItemList.parse head.fields .projection)
  join : ∀ kind body, c.join = some (kind, body) → NeverUnbalanced (Join.parse kind body)
  whereRows : ∀ body, c.whereRows = some body → NeverUnbalanced (Where.split body)
  condition : ∀ body fragments, c.whereRows = some body → Where.split body = .ok fragments →
    ∀ f ∈ fragments, NeverUnbalanced (Condition.parse f)
  groupBy : ∀ body, c.groupBy = some body → NeverUnbalanced (ItemList.parse body .groupBy)
  orderBy : ∀ body, c.orderBy = some body → NeverUnbalanced (ItemList.split body .orderBy)
  topBlank : ∀ body items, c.orderBy = some body → ItemList.split body .orderBy = .ok items →
    ∀ i ∈ items, NeverUnbalanced (SortKey.hasTopBlank ⟨(SortKey.divide i.chars).1, i.start⟩)
  sortKey : ∀ body items, c.orderBy = some body → ItemList.split body .orderBy = .ok items →
    ∀ i ∈ items, NeverUnbalanced (SortKey.parseItem i)

/-- A statement that was divided is read without complaint about delimiters. -/
theorem Clauses.delimited_of_split {c : Clauses} (h : split p = .ok c) : c.Delimited := by
  obtain ⟨-, hhead, hbody, -⟩ := balanced_of_split h
  have hbody : ∀ k b, c.body? k = some b → Balanced b.chars := fun k b hb => (hbody k b hb).1
  constructor
  case head => exact (SelectHead.kinds_parse hhead).neverUnbalanced (by decide)
  case fields =>
    intro head hp
    exact (ItemList.kinds_parse (SelectHead.fields_of_parse hp hhead) _).neverUnbalanced (by decide)
  case join =>
    intro kind body e
    exact (Join.kinds_parse (hbody (.join kind) body (by simp [body?, e])) kind).neverUnbalanced
      (by decide)
  case whereRows =>
    intro body e
    exact (Where.kinds_split (hbody .whereRows body e)).neverUnbalanced (by decide)
  case condition =>
    intro body fragments e hf f hmem
    have hf := (Where.kinds_split (hbody .whereRows body e)).of_ok hf
    exact (Condition.kinds_parse (hf f hmem)).neverUnbalanced (by decide)
  case groupBy =>
    intro body e
    exact (ItemList.kinds_parse (hbody .groupBy body e) _).neverUnbalanced (by decide)
  case orderBy =>
    intro body e
    exact (ItemList.kinds_split (hbody .orderBy body e) _).neverUnbalanced (by decide)
  case topBlank =>
    intro body items e hi i hmem
    have hi := (ItemList.kinds_split (hbody .orderBy body e) _).of_ok hi
    exact (SortKey.yields_hasTopBlank (SortKey.balanced_divide (hi i hmem))).neverUnbalanced
      (k := .malformedOrderBy) (by decide)
  case sortKey =>
    intro body items e hi i hmem
    have hi := (ItemList.kinds_split (hbody .orderBy body e) _).of_ok hi
    exact (SortKey.kinds_parseItem (hi i hmem)).neverUnbalanced (by decide)

/-- What a balanced `SELECT` may be refused for: a repeated clause, its head, its fields, or a
clause that was found in it. -/
def SelectQuery.Refusal (p : Piece) (e : ParseError) : Prop :=
  e.kind ∈ [.duplicateClause, .malformedSelect, .emptyFieldList] ∨
    ∃ k : ClauseKind, k.FoundIn p ∧ e.kind = k.faultKind

theorem SelectQuery.refusals_parse (h : Balanced p.chars) :
    Yields (Refusal p) (fun _ => True) (parse p) := by
  have hsplit : Yields (Refusal p) (fun c => Clauses.split p = .ok c) (Clauses.split p) := by
    refine .of_forall (fun e he => ?_) fun c hc => hc
    rcases (Clauses.refusals_split h).of_error he with ⟨hkind, hfound⟩ | hkind
    · exact .inr ⟨_, hfound, hkind⟩
    · exact .inl (by rw [hkind]; decide)
  have other : ∀ {α : Type} {kind : ErrorKind} {Q : α → Prop} {x : Except ParseError α},
      kind ∈ [.duplicateClause, .malformedSelect, .emptyFieldList] → Yields (·.kind = kind) Q x →
        Yields (Refusal p) Q x :=
    fun hkind hx => hx.mono (fun e he => .inl (he ▸ hkind)) fun _ hq => hq
  refine hsplit.bind fun c hc => ?_
  obtain ⟨-, hhead, hbody, -⟩ := Clauses.balanced_of_split hc
  have clause :
      ∀ {α : Type} (k : ClauseKind) {b : Piece} {x : Except ParseError α}, c.body? k = some b →
      (Balanced b.chars → Yields (·.kind = k.faultKind) (fun _ => True) x) →
      Yields (Refusal p) (fun _ => True) x :=
    fun k b x hb hx => (hx (hbody k b hb).1).mono
      (fun e he => .inr ⟨k, Clauses.foundIn_of_split hc hb, he⟩) fun _ hq => hq
  refine (other (by decide) (SelectHead.kinds_parse hhead)).bind fun head hfields => ?_
  refine (other (by decide) (ItemList.kinds_parse hfields .projection)).bind fun _ _ => ?_
  refine (yields_joinOf fun kind b hb => clause (.join kind) (Clauses.join_eq_some_iff.1 hb)
    (Join.kinds_parse · kind)).bind fun _ _ => ?_
  refine (yields_optional fun b hb => clause .whereRows hb Where.kinds_parse).bind fun _ _ => ?_
  refine (yields_optional fun b hb => clause .groupBy hb (ItemList.kinds_parse · .groupBy)).bind
    fun _ _ => ?_
  refine (yields_optional fun b hb => clause .orderBy hb SortKey.kinds_parse).bind fun _ _ => ?_
  exact (yields_optional fun b hb => clause .limit hb fun _ => Limit.kinds_parse).bind
    fun _ _ => .ok trivial

/-- A balanced `SELECT` is not refused for its delimiters. -/
theorem SelectQuery.neverUnbalanced_of_balanced (h : Balanced p.chars) :
    NeverUnbalanced (parse p) := by
  intro e he hkind
  rcases (refusals_parse h).of_error he with hother | ⟨k, -, hk⟩
  · rw [hkind] at hother
    revert hother
    decide
  · rw [hkind] at hk
    cases k <;> cases hk

theorem SelectQuery.neverUnbalanced_joinOf {c : Clauses} (h : c.Delimited) :
    NeverUnbalanced (joinOf c) := by
  have hy : Yields (·.kind ≠ .unbalancedDelimiter) (fun _ => True) (joinOf c) :=
    yields_joinOf fun kind b e => .of_forall (h.join kind b e) fun _ _ => trivial
  exact fun e => hy.of_error

/-! ## `INSERT` -/

theorem Balanced.of_plain_append {m y : List Char} (hm : Plain m) (hy : Balanced y) :
    Balanced (m ++ y) := by
  by_cases hne : m = []
  · rwa [hne]
  · exact hm.balanced.append hy ((seam_nil _).plain hm hne)

theorem Balanced.of_trimStart {x : List Char} (h : Balanced (trimStart x)) : Balanced x := by
  have hblank := plain_of_blank (blank_takeWhile x)
  have := Balanced.of_plain_append hblank h
  rwa [trimStart, List.takeWhile_append_dropWhile] at this

theorem balanced_of_trim {x : List Char} (h : Balanced (trim x)) : Balanced x := by
  obtain ⟨b, b', hb, hb', e⟩ := exists_blank_trim_blank x
  have hb' := plain_of_blank hb'
  rw [e]
  refine .of_plain_append (plain_of_blank hb) ?_
  exact h.append hb'.balanced (seam_of_balanced h hb'.head)

/-- Only a parenthesis outside literals changes the depth. -/
theorem Place.next_depth {q : Place} {c : Char} (h : q.isOutside c = true → c ≠ '(' ∧ c ≠ ')') :
    (q.next c).depth = q.depth := by
  have hpass : q.unterminated? = none → (q.pass c).depth = q.depth := by
    intro ht
    have hc : c ≠ '(' ∧ c ≠ ')' := by
      cases hq : Literal.isQuote c with
      | true =>
        rcases Literal.isQuote_iff.1 hq with rfl | rfl <;> decide
      | false =>
        apply h
        rw [Place.isOutside_eq, Place.unterminated?_eq_none_iff.1 ht, hq]
        rfl
    simp only [Place.pass, if_neg hc.1, if_neg hc.2]
  unfold Place.next
  split
  · rename_i e
    exact hpass (by rw [Place.unterminated?, e])
  · rfl
  · rename_i e
    split
    · rfl
    · exact hpass (by rw [Place.unterminated?, e])

/-- A text without parentheses outside literals leaves the depth as it is. -/
theorem depth_advance_of_sites {q : Place} {x : List Char}
    (h : ∀ s ∈ sitesFrom q x, s.char ≠ '(' ∧ s.char ≠ ')') : (q.advance x).depth = q.depth := by
  induction x generalizing q with
  | nil => rfl
  | cons c r ih =>
    cases hc : q.isOutside c with
    | true =>
      rw [sitesFrom_cons_of_outside hc, List.forall_mem_cons] at h
      rw [Place.advance_cons, ih h.2]
      exact Place.next_depth fun _ => h.1
    | false =>
      rw [sitesFrom_cons_of_inside hc] at h
      rw [Place.advance_cons, ih h]
      exact Place.next_depth fun e => by rw [hc] at e; cases e

theorem Unbroken.balanced {w : List Char} (h : Unbroken w) : Balanced w := by
  have hsites : ∀ s ∈ sitesFrom (.start 0 none) w, s.char ≠ '(' ∧ s.char ≠ ')' := by
    intro s hs
    exact (endsTable_eq_false_iff.1 (h.whole s hs)).2
  refine ⟨⟨h.terminated, fun s hs => ?_⟩, depth_advance_of_sites hsites⟩
  simp [Site.isTop, (hsites s hs).2]

namespace InsertQuery

theorem Follows.balanced {k : Keyword} {x y : List Char} (h : Follows k x y) (hy : Balanced y) :
    Balanced x := by
  obtain ⟨m, rfl, hm⟩ := h
  have hplain := (Keyword.plain_of_match? hm).2.2
  rw [List.take_left] at hplain
  exact .of_plain_append hplain hy

theorem Enclosed.balanced {x w y : List Char} (h : Enclosed x w y) (hy : Balanced y) :
    Balanced x := by
  refine .of_trimStart ?_
  rw [h.1]
  exact h.2.enclose hy

theorem Named.balanced {x w y : List Char} (h : Named x w y) (hy : Balanced y) : Balanced x := by
  obtain ⟨e, -, hw, hend⟩ := h
  refine .of_trimStart ?_
  rw [e]
  refine hw.balanced.append hy (seam_of_balanced hw.balanced fun c hc => ?_)
  rcases hend c hc with hblank | rfl
  · exact (plain_of_blank (List.forall_mem_singleton.2 hblank) c List.mem_cons_self).1
  · rfl

theorem Returns.balanced {x : List Char} {rs : List String} (h : Returns x rs) : Balanced x := by
  rcases h with ⟨rfl, -⟩ | ⟨y, xs, hy, hl, -⟩
  · decide
  · exact hy.balanced (balanced_of_trim hl.balanced)

/-- The text of an `INSERT` that is read is balanced. -/
theorem Reading.balanced {arity : Bool} {cs : List Char} {q : InsertQuery}
    {w cols vals tail : List Char} {xs ys : List (List Char)}
    (h : Reading arity cs q w cols vals tail xs ys) : Balanced cs := by
  obtain ⟨y₀, y₁, y₂, y₃, hinsert, htable, hcolumns, hvalues, hlist⟩ := h.laidOut
  have htail : Balanced tail := .of_trimStart h.returning.balanced
  have h₂ : Balanced y₂ := .of_trimStart (hvalues.balanced (hlist.balanced htail))
  exact hinsert.balanced (htable.balanced (hcolumns.balanced h₂))

end InsertQuery

/-! ## Whole texts -/

/-- Delimiters are decided once, and before anything else: `SELECT`s and their joins are refused for
them exactly if the statement is not balanced, nothing behind the division into clauses complains
about them, and no `INSERT` is read from an unbalanced statement. -/
theorem delimiters_decided_first (settings : Settings) (text : String)
    (h : text.utf8ByteSize ≤ settings.maxLength) :
    ∃ p, Statement.isolate settings text = .ok p ∧
      ((∃ e, SelectQuery.ofText settings text = .error e ∧ e.kind = .unbalancedDelimiter) ↔
        ¬Scanned 0 p.chars) ∧
      ((∃ e, Join.ofText settings text = .error e ∧ e.kind = .unbalancedDelimiter) ↔
        ¬Scanned 0 p.chars) ∧
      (∀ c, Clauses.split p = .ok c → c.Delimited) ∧
      ∀ q, InsertQuery.ofText settings text = .ok q → Scanned 0 p.chars := by
  have hbytes : byteLength text.toList ≤ settings.maxLength := by rwa [byteLength_toList]
  obtain ⟨p, hp⟩ := Statement.exists_isolate hbytes
  have hselect : SelectQuery.ofText settings text = SelectQuery.parse p := by
    rw [SelectQuery.ofText, hp]
    rfl
  have hjoin : Join.ofText settings text = Clauses.split p >>= SelectQuery.joinOf := by
    rw [Join.ofText, hp]
    rfl
  have hinsert : InsertQuery.ofText settings text = InsertQuery.parse settings.matchArity p := by
    rw [InsertQuery.ofText, hp]
    rfl
  rw [hselect, hjoin, hinsert]
  simp only [scanned_iff_balanced]
  refine ⟨p, hp, ⟨?_, fun hb => ?_⟩, ⟨?_, fun hb => ?_⟩, fun c => Clauses.delimited_of_split, ?_⟩
  · rintro ⟨e, he, hkind⟩ hb
    exact SelectQuery.neverUnbalanced_of_balanced hb e he hkind
  · obtain ⟨e, he, hkind⟩ := Clauses.split_of_not_balanced hb
    exact ⟨e, by rw [SelectQuery.parse, he]; rfl, hkind⟩
  · rintro ⟨e, he, hkind⟩ hb
    cases hs : Clauses.split p with
    | error e' =>
      rw [hs] at he
      cases he
      rcases (Clauses.kinds_split hb).of_error hs with hk | hk <;> rw [hk] at hkind <;> cases hkind
    | ok c =>
      rw [hs] at he
      exact SelectQuery.neverUnbalanced_joinOf (Clauses.delimited_of_split hs) e he hkind
  · obtain ⟨e, he, hkind⟩ := Clauses.split_of_not_balanced hb
    exact ⟨e, by rw [he]; rfl, hkind⟩
  · intro q hq
    obtain ⟨w, cols, vals, tail, xs, ys, hr⟩ := InsertQuery.parse_eq_ok_iff.1 hq
    exact hr.balanced

/-- A parenthesis that is not closed is reported, though the statement also lacks a table. -/
theorem delimiters_decided_first_open : "SELECT f(a FROM".utf8ByteSize ≤ ({} : Settings).maxLength ∧
    ∃ e, SelectQuery.ofText {} "SELECT f(a FROM" = .error e ∧ e.kind = .unbalancedDelimiter := by
  have hlength : "SELECT f(a FROM".utf8ByteSize ≤ ({} : Settings).maxLength := by decide
  obtain ⟨p, hp, hselect, -⟩ := delimiters_decided_first {} "SELECT f(a FROM" hlength
  have hchars : p.chars = "SELECT f(a FROM".toList :=
    Statement.isolate_of_tight (by decide) (by decide) hp
  refine ⟨hlength, hselect.2 ?_⟩
  rw [hchars]
  decide

end TableQuery
