import TableQuery.Proofs.AggregatePattern
import TableQuery.Proofs.QuoteLayers
import TableQuery.Proofs.SelectRereading

/-!
# Aggregate calls inside and outside literals

A call of an aggregate function is looked for in the whole text of a field, quoted literals
included. It is spelled without a quote (`IsCall`), so that it stands either outside all literals of
the field or inside one of them. The first kind is what is left when every literal is emptied to its
two quotes (`Literal.emptied`), the second what one of the texts in quotes (`Literal.contents`)
holds: a field calls an aggregate function exactly if one of these does (`callsFrom_eq`). A query
whose fields only quote such a call is therefore taken for one that aggregates all rows
(`SelectQuery.aggregatesAll_of_ofText`).
-/

namespace TableQuery

open Text

/-! ## The literals of a text -/

namespace Literal

/-- The text with nothing left of each literal but its two quotes. -/
def emptied : List Char → List Char
  | [] => []
  | c :: r =>
    if isQuote c then
      match closing? c r with
      | some n => c :: c :: emptied (r.drop n)
      | none => c :: r
    else c :: emptied r
termination_by cs => cs.length
decreasing_by
  · simp only [List.length_drop, List.length_cons]
    omega
  · exact Nat.lt_succ_self r.length

/-- What the literals of the text quote, from left to right. -/
def contents : List Char → List (List Char)
  | [] => []
  | c :: r =>
    if isQuote c then
      match closing? c r with
      | some n => unquote (c :: r.take n) :: contents (r.drop n)
      | none => []
    else contents r
termination_by cs => cs.length
decreasing_by
  · simp only [List.length_drop, List.length_cons]
    omega
  · exact Nat.lt_succ_self r.length

theorem emptied_cons_of_not_isQuote {c : Char} (hc : isQuote c = false) (r : List Char) :
    emptied (c :: r) = c :: emptied r := by
  rw [emptied, if_neg (by simp [hc])]

/-- A text without quotes starts what is left exactly if it starts the text. -/
theorem prefix_emptied_iff {w x : List Char} (hw : ∀ c ∈ w, isQuote c = false) :
    w <+: emptied x ↔ w <+: x := by
  induction w generalizing x with
  | nil => exact iff_of_true List.nil_prefix List.nil_prefix
  | cons d w ih =>
    obtain ⟨hd, hw⟩ := List.forall_mem_cons.1 hw
    cases x with
    | nil => rw [emptied]
    | cons c r =>
      cases hc : isQuote c with
      | false =>
        rw [emptied_cons_of_not_isQuote hc, List.cons_prefix_cons, List.cons_prefix_cons, ih hw]
      | true =>
        have hne : d ≠ c := by
          rintro rfl
          rw [hd] at hc
          cases hc
        have hhead : ∃ y, emptied (c :: r) = c :: y := by
          rw [emptied, if_pos hc]
          split
          · exact ⟨_, rfl⟩
          · exact ⟨_, rfl⟩
        obtain ⟨y, hy⟩ := hhead
        rw [hy, List.cons_prefix_cons, List.cons_prefix_cons]
        exact iff_of_false (fun h => hne h.1) (fun h => hne h.1)

/-- A text without the quote starts a literal exactly if it starts what the literal quotes. -/
theorem prefix_double_append_iff {q : Char} {w : List Char} (hw : ∀ c ∈ w, c ≠ q)
    (v y : List Char) :
    w <+: double q v ++ q :: y ↔ w <+: v := by
  induction w generalizing v with
  | nil => exact iff_of_true List.nil_prefix List.nil_prefix
  | cons d w ih =>
    obtain ⟨hd, hw⟩ := List.forall_mem_cons.1 hw
    cases v with
    | nil =>
      rw [double, List.nil_append, List.cons_prefix_cons]
      exact iff_of_false (fun h => hd h.1) (by simp)
    | cons c v =>
      rw [double]
      split
      · rename_i hc
        rw [hc, List.cons_append, List.cons_prefix_cons, List.cons_prefix_cons]
        exact iff_of_false (fun h => hd h.1) (fun h => hd h.1)
      · rw [List.cons_append, List.cons_prefix_cons, List.cons_prefix_cons, ih hw]

end Literal

/-! ## Calls -/

namespace Aggregate

/-- A call is spelled without quotes. -/
theorem IsCall.isQuote {w : List Char} (h : IsCall w) : ∀ c ∈ w, Literal.isQuote c = false := by
  obtain ⟨name, hmem, n, g, hn, hg, rfl⟩ := h
  have hletters :
      ∀ name ∈ names, ∀ l ∈ name.toList, isLetter l '\'' = false ∧ isLetter l '"' = false := by
    decide
  intro c hc
  rcases List.mem_append.1 hc with hc | hc
  · obtain ⟨l, hl, hletter⟩ := exists_of_forall₂ hn c hc
    obtain ⟨hsingle, hdouble⟩ := hletters name hmem l hl
    rw [Bool.eq_false_iff]
    intro hquote
    rcases Literal.isQuote_iff.1 hquote with rfl | rfl
    · rw [hletter] at hsingle
      cases hsingle
    · rw [hletter] at hdouble
      cases hdouble
  · rcases List.mem_append.1 hc with hc | hc
    · exact (plain_of_blank hg c hc).1
    · rw [List.mem_singleton.1 hc]
      rfl

theorem IsCall.ne_nil {w : List Char} (h : IsCall w) : w ≠ [] := by
  obtain ⟨-, -, n, g, -, -, rfl⟩ := h
  simp

/-- Whether a call starts a text is decided by the spellings that start it. -/
theorem startsCall_congr {x y : List Char} (h : ∀ w, IsCall w → (w <+: x ↔ w <+: y)) :
    startsCall x = startsCall y := by
  rw [Bool.eq_iff_iff, startsCall_iff, startsCall_iff]
  exact exists_congr fun w => and_congr_right fun hw => h w hw

theorem startsCall_emptied (x : List Char) : startsCall (Literal.emptied x) = startsCall x :=
  startsCall_congr fun _ hw => Literal.prefix_emptied_iff hw.isQuote

variable {q : Char}

/-- No call starts with a quote. -/
theorem startsCall_quote (hq : Literal.isQuote q = true) (x : List Char) :
    startsCall (q :: x) = false := by
  rw [Bool.eq_false_iff, Ne, startsCall_iff]
  rintro ⟨w, hw, hp⟩
  obtain ⟨c, w, rfl⟩ := List.exists_cons_of_ne_nil hw.ne_nil
  obtain ⟨rfl, -⟩ := List.cons_prefix_cons.1 hp
  rw [hw.isQuote c List.mem_cons_self] at hq
  cases hq

theorem startsCall_double (hq : Literal.isQuote q = true) (v y : List Char) :
    startsCall (Literal.double q v ++ q :: y) = startsCall v := by
  refine startsCall_congr fun w hw => Literal.prefix_double_append_iff ?_ v y
  rintro c hc rfl
  rw [hw.isQuote c hc] at hq
  cases hq

/-! ## Calls in a text -/

/-- A word can start behind a quote. -/
theorem isBoundary_quote (hq : Literal.isQuote q = true) : isBoundary (some q) = true := by
  rcases Literal.isQuote_iff.1 hq with rfl | rfl <;> decide

theorem callsFrom_quote (hq : Literal.isQuote q = true) (x : List Char) :
    callsFrom (some q) x = callsFrom none x := by
  cases x with
  | nil => rfl
  | cons c r => rw [callsFrom, callsFrom, isBoundary_quote hq]; rfl

theorem callsFrom_quote_cons (hq : Literal.isQuote q = true) (b : Option Char) (x : List Char) :
    callsFrom b (q :: x) = callsFrom (some q) x := by
  rw [callsFrom, startsCall_quote hq, Bool.and_false, Bool.false_or]

/-- The calls in a literal and behind it. -/
theorem callsFrom_double (hq : Literal.isQuote q = true) (b : Option Char) (v y : List Char) :
    callsFrom b (Literal.double q v ++ q :: y) = (callsFrom b v || callsFrom (some q) y) := by
  induction v generalizing b with
  | nil =>
    rw [Literal.double, List.nil_append, callsFrom_quote_cons hq, callsFrom, Bool.false_or]
  | cons c v ih =>
    have hstart := startsCall_double hq (c :: v) y
    rw [Literal.double] at hstart ⊢
    split
    · rename_i hc
      rw [List.cons_append, List.cons_append, callsFrom_quote_cons hq, callsFrom_quote_cons hq, ih,
        hc, callsFrom_quote_cons hq]
    · rename_i hc
      rw [if_neg hc, List.cons_append] at hstart
      rw [List.cons_append, callsFrom, callsFrom, hstart, ih, Bool.or_assoc]

/-- The calls in a text are those outside its literals and those that its literals quote. -/
theorem callsFrom_eq (b : Option Char) (x : List Char) :
    callsFrom b x =
      (callsFrom b (Literal.emptied x) || (Literal.contents x).any (callsFrom none)) := by
  -- the induction jumps over one literal at a time, so the character in front of the rest is kept
  -- general
  fun_induction Literal.emptied x generalizing b with
  | case1 => rw [Literal.contents, List.any_nil, Bool.or_false]
  | case2 q r hq n hn ih =>
    obtain ⟨v, htext, -⟩ := Literal.exists_quoted_append hq hn
    have hliteral : q :: r.take n = Literal.quoted q v := by
      refine (List.append_left_inj (r.drop n)).1 ?_
      rw [List.cons_append, List.take_append_drop, htext]
    have hcontents : Literal.contents (q :: r) = v :: Literal.contents (r.drop n) := by
      rw [Literal.contents, if_pos hq, hn]
      dsimp only
      rw [hliteral, Literal.unquote_quoted hq]
    have hinside : r = Literal.double q v ++ q :: r.drop n := by
      rw [Literal.quoted, List.cons_append, List.append_assoc, List.singleton_append] at htext
      exact (List.cons.inj htext).2
    calc callsFrom b (q :: r)
        = callsFrom (some q) (Literal.double q v ++ q :: r.drop n) := by
          rw [callsFrom_quote_cons hq, ← hinside]
      _ = (callsFrom none v || callsFrom (some q) (r.drop n)) := by
        rw [callsFrom_double hq, callsFrom_quote hq]
      _ = _ := by
        rw [ih, callsFrom_quote_cons hq, callsFrom_quote_cons hq, hcontents, List.any_cons,
          Bool.or_left_comm]
  | case3 q r hq hn =>
    -- a literal that does not end is left as it is
    have hcontents : Literal.contents (q :: r) = [] := by rw [Literal.contents, if_pos hq, hn]
    rw [hcontents, List.any_nil, Bool.or_false]
  | case4 c r hc ih =>
    rw [Bool.not_eq_true] at hc
    have hstart := startsCall_emptied (c :: r)
    rw [Literal.emptied_cons_of_not_isQuote hc] at hstart
    have hcontents : Literal.contents (c :: r) = Literal.contents r := by
      rw [Literal.contents, if_neg (by simp [hc])]
    rw [callsFrom, callsFrom, hstart, ih, hcontents, Bool.or_assoc]

/-- The fields with their literals emptied. -/
def emptied (fields : List String) : List String :=
  fields.map fun field => String.ofList (Literal.emptied field.toList)

/-- A literal in some field quotes a call of an aggregate function. -/
def quoted (fields : List String) : Bool :=
  fields.any fun field => (Literal.contents field.toList).any (callsFrom none)

/-- Some field calls an aggregate function exactly if one does outside its literals or quotes a
call. -/
theorem called_eq (fields : List String) :
    called fields = (called (emptied fields) || quoted fields) := by
  induction fields with
  | nil => rfl
  | cons field fields ih =>
    rw [emptied] at ih
    rw [called, quoted, emptied, List.any_cons, List.any_cons, List.map_cons, called, List.any_cons,
      String.toList_ofList, ← called, ← called, ← quoted, ih, callsFrom_eq none field.toList]
    ac_rfl

end Aggregate

namespace SelectQuery

/-- A query without grouping aggregates all rows if its fields call an aggregate function outside
their literals, all of which end, and also if a literal quotes such a call. What the literals hold
is of no account exactly if there is a call outside them or none inside. -/
theorem aggregatesAll_of_ofText (settings : Settings) (text : String) (q : SelectQuery)
    (h : ofText settings text = .ok q) (hg : q.groupBy = none) :
    (∀ field ∈ q.fields, Skimmed field.toList) ∧
    q.aggregatesAll = (Aggregate.called (Aggregate.emptied q.fields) || Aggregate.quoted q.fields) ∧
    (q.aggregatesAll = Aggregate.called (Aggregate.emptied q.fields) ↔
      Aggregate.called (Aggregate.emptied q.fields) = true ∨
      Aggregate.quoted q.fields = false) := by
  obtain ⟨p, -, hq⟩ := bind_eq_ok_iff.1 h
  obtain ⟨c, head, hr⟩ := parse_eq_ok_iff.1 hq
  have hflag : q.aggregatesAll =
      (Aggregate.called (Aggregate.emptied q.fields) || Aggregate.quoted q.fields) := by
    rw [hr.aggregatesAll, aggregates, hg, ← Aggregate.called_eq]
    rfl
  refine ⟨fun field hf => skimmed_iff.2 (hr.formed.fields.2 field hf).terminated, hflag, ?_⟩
  rw [hflag, Bool.or_eq_left_iff_imp]
  cases Aggregate.called (Aggregate.emptied q.fields) <;> cases Aggregate.quoted q.fields <;> decide

/-- A query that only quotes a call. -/
def quotedCallSample : SelectQuery where
  fields := ["'COUNT(x)'"]
  table := "t"
  join := none
  conditions := []
  groupBy := none
  aggregatesAll := true
  orderBy := none
  limit := none
  distinct := false

/-- A call in a literal turns a plain query into one that aggregates all rows. -/
theorem aggregatesAll_of_ofText_quoted_call :
    ofText {} "SELECT 'COUNT(x)' FROM t" = .ok quotedCallSample ∧
    quotedCallSample.aggregatesAll = true ∧ Aggregate.emptied quotedCallSample.fields = ["''"] ∧
    quotedCallSample.aggregatesAll ≠
      Aggregate.called (Aggregate.emptied quotedCallSample.fields) := by
  have h : ofText {} "SELECT 'COUNT(x)' FROM t" = .ok quotedCallSample := by decide +kernel
  obtain ⟨-, -, hextent⟩ := aggregatesAll_of_ofText {} _ quotedCallSample h rfl
  refine ⟨h, rfl, by decide +kernel, ?_⟩
  rw [Ne, hextent]
  decide +kernel

end SelectQuery

end TableQuery
