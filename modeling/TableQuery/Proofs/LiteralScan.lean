import TableQuery.Proofs.Sites

/-!
# Literals in the walk over a text

The walk over a text stands inside a literal exactly as long as `Literal.closing?` says: behind an
opening quote it comes out of the literal at the quote which `closing?` finds (`advance_closing`),
and never if it finds none. So the texts over which one can jump from literal to literal, the
`Skimmed` ones, are those at whose end the walk is outside literals (`skimmed_iff`).

A quoted text is one literal, without any site of its own, whatever it holds (`advance_quote`).
-/

namespace TableQuery

open Text Outline

namespace Place

theorem next_of_inside {p : Place} {q : Char} {i : Nat} (h : p.quoting = .inside q i) (c : Char) :
    (p.next c).quoting = (if c = q then .closed q i else .inside q i) ∧
      (p.next c).depth = p.depth := by
  unfold next
  rw [h]
  exact ⟨rfl, rfl⟩

theorem next_of_closed {p : Place} {q : Char} {i : Nat} (h : p.quoting = .closed q i) :
    (p.next q).quoting = .inside q i ∧ (p.next q).depth = p.depth := by
  unfold next
  rw [h]
  simp only [if_true]
  exact ⟨rfl, rfl⟩

theorem isOutside_of_inside {p : Place} {q : Char} {i : Nat} (h : p.quoting = .inside q i)
    (c : Char) : p.isOutside c = false := by
  rw [isOutside, h]

theorem isOutside_of_isQuote (p : Place) {c : Char} (h : Literal.isQuote c = true) :
    p.isOutside c = false := by
  rw [isOutside_eq, h]
  simp

/-- A quote closes a literal only right behind itself. -/
theorem getLast?_of_closed {p : Place} {x : List Char} (hx : x ≠ []) {q : Char}
    (h : (p.advance x).quoting.mode = some (q, false)) : x.getLast? = some q := by
  obtain ⟨u, c, rfl⟩ : ∃ u c, x = u ++ [c] :=
    ⟨x.dropLast, x.getLast hx, (List.dropLast_concat_getLast hx).symm⟩
  rw [advance_append, advance_cons, advance_nil] at h
  rw [List.getLast?_append, List.getLast?_singleton, Option.some_or]
  have hpass : ((p.advance u).pass c).quoting.mode ≠ some (q, false) := by
    simp only [pass]
    split <;> (intro e; cases e)
  unfold next at h
  split at h
  · exact absurd h hpass
  · simp only [stay] at h
    split at h
    · rename_i e
      cases h
      rw [e]
    · cases h
  · split at h
    · cases h
    · exact absurd h hpass

/-- From inside a literal, the walk leaves it at the quote that `closing?` finds. -/
theorem advance_closing {q : Char} (hq : Literal.isQuote q = true) {r : List Char} {n : Nat}
    (h : Literal.closing? q r = some n) {p : Place} {i : Nat} (hp : p.quoting = .inside q i) :
    (p.advance (r.take n)).quoting = .closed q i ∧ (p.advance (r.take n)).depth = p.depth ∧
      sitesFrom p (r.take n) = [] ∧ ∀ c ∈ (r.drop n).head?, c ≠ q := by
  have ho := isOutside_of_inside hp
  fun_induction Literal.closing? q r generalizing n p with
  | case1 => cases h
  | case2 c hc =>
    cases h
    obtain ⟨h₁, h₂⟩ := next_of_inside hp c
    rw [if_pos hc.1] at h₁
    refine ⟨h₁, h₂, ?_, fun d hd => by cases hd⟩
    rw [List.take_succ_cons, sitesFrom_cons_of_inside (ho c)]
    rfl
  | case3 => cases h
  | case4 r ih =>
    obtain ⟨m, hm, rfl⟩ := Option.map_eq_some_iff.1 h
    obtain ⟨h₁, d₁⟩ := next_of_inside hp q
    rw [if_pos rfl] at h₁
    obtain ⟨h₂, d₂⟩ := next_of_closed h₁
    obtain ⟨e₁, e₂, e₃, e₄⟩ := ih hm h₂ (isOutside_of_inside h₂)
    rw [List.take_succ_cons, List.take_succ_cons, advance_cons, advance_cons,
      sitesFrom_cons_of_inside (ho q), sitesFrom_cons_of_inside (isOutside_of_isQuote _ hq)]
    exact ⟨e₁, by rw [e₂, d₂, d₁], e₃, e₄⟩
  | case5 d r hd =>
    cases h
    obtain ⟨h₁, h₂⟩ := next_of_inside hp q
    rw [if_pos rfl] at h₁
    refine ⟨h₁, h₂, ?_, fun e he => by cases he; exact hd⟩
    rw [List.take_succ_cons, sitesFrom_cons_of_inside (ho q)]
    rfl
  | case6 c d r hc ih =>
    obtain ⟨m, hm, rfl⟩ := Option.map_eq_some_iff.1 h
    obtain ⟨h₁, d₁⟩ := next_of_inside hp c
    rw [if_neg hc] at h₁
    obtain ⟨e₁, e₂, e₃, e₄⟩ := ih hm h₁ (isOutside_of_inside h₁)
    rw [List.take_succ_cons, advance_cons, sitesFrom_cons_of_inside (ho c)]
    exact ⟨e₁, by rw [e₂, d₁], e₃, e₄⟩

theorem advance_of_closing_none {q : Char} (hq : Literal.isQuote q = true) {r : List Char}
    (h : Literal.closing? q r = none) {p : Place} {i : Nat} (hp : p.quoting = .inside q i) :
    (p.advance r).quoting = .inside q i := by
  fun_induction Literal.closing? q r generalizing p with
  | case1 => exact hp
  | case2 => cases h
  | case3 c hc =>
    have hne : q ≠ Literal.endMark := by
      rintro rfl
      exact absurd hq (by decide)
    have := (next_of_inside hp c).1
    rw [if_neg (fun e => hc ⟨e, hne⟩)] at this
    exact this
  | case4 r ih =>
    have h₁ := (next_of_inside hp q).1
    rw [if_pos rfl] at h₁
    exact ih (Option.map_eq_none_iff.1 h) (next_of_closed h₁).1
  | case5 => cases h
  | case6 c d r hc ih =>
    have h₁ := (next_of_inside hp c).1
    rw [if_neg hc] at h₁
    exact ih (Option.map_eq_none_iff.1 h) h₁

end Place

/-! ## Jumping over literals -/

/-- The text ends outside literals when each literal is jumped over as a whole. -/
inductive Skimmed : List Char → Prop
  | nil : Skimmed []
  | plain {c : Char} {r : List Char} : Literal.isQuote c = false → Skimmed r → Skimmed (c :: r)
  | literal {q : Char} {r : List Char} {n : Nat} : Literal.isQuote q = true →
      Literal.closing? q r = some n → Skimmed (r.drop n) → Skimmed (q :: r)

theorem skimmed_cons_iff {c : Char} {r : List Char} (hc : Literal.isQuote c = false) :
    Skimmed (c :: r) ↔ Skimmed r := by
  refine ⟨fun h => ?_, .plain hc⟩
  cases h with
  | plain _ h => exact h
  | literal h _ _ => rw [hc] at h; cases h

theorem skimmed_append_iff {m r : List Char} (hm : ∀ c ∈ m, Literal.isQuote c = false) :
    Skimmed (m ++ r) ↔ Skimmed r := by
  induction m with
  | nil => rw [List.nil_append]
  | cons c m ih =>
    obtain ⟨hc, hm⟩ := List.forall_mem_cons.1 hm
    rw [List.cons_append, skimmed_cons_iff hc, ih hm]

theorem skimmed_literal_iff {q : Char} {r : List Char} {n : Nat} (hq : Literal.isQuote q = true)
    (hn : Literal.closing? q r = some n) : Skimmed (q :: r) ↔ Skimmed (r.drop n) := by
  refine ⟨fun h => ?_, .literal hq hn⟩
  cases h with
  | plain h _ => rw [hq] at h; cases h
  | literal _ h' h =>
    rw [hn] at h'
    cases h'
    exact h

/-- Jumping over a literal leads to a place where the text behind it is read afresh. -/
theorem Place.Fresh.jump {p : Place} {q : Char} {r : List Char} {n : Nat} (hp : p.Fresh (q :: r))
    (hq : Literal.isQuote q = true) (h : Literal.closing? q r = some n) :
    ∃ p' : Place, p'.Fresh (r.drop n) ∧ p'.depth = p.depth ∧
      p.advance (q :: r) = p'.advance (r.drop n) ∧
      sitesFrom p (q :: r) = sitesFrom p' (r.drop n) := by
  have hin : (p.pass q).quoting = .inside q p.index := by
    simp only [Place.pass, hq, if_true]
  obtain ⟨e₁, e₂, e₃, e₄⟩ := Place.advance_closing hq h hin
  have hdepth : (p.pass q).depth = p.depth := by
    rcases Literal.isQuote_iff.1 hq with rfl | rfl <;> rfl
  refine ⟨(p.pass q).advance (r.take n), ⟨⟨fun q' b e => ?_, ?_⟩, fun d hd e => ?_⟩,
    by rw [e₂, hdepth], ?_, ?_⟩
  · rw [e₁] at e
    cases e
    exact hq
  · rw [Place.unterminated?, e₁]
  · rw [e₁] at e
    cases e
    exact e₄ q hd rfl
  · rw [Place.advance_cons, hp.next, ← Place.advance_append, List.take_append_drop]
  · have e := sitesFrom_append (p.pass q) (r.take n) (r.drop n)
    rw [List.take_append_drop, e₃] at e
    rw [sitesFrom_cons_of_inside (Place.isOutside_of_isQuote p hq), hp.next]
    exact e

/-- A literal without an end is still open behind the text. -/
theorem Place.Fresh.unterminated {p : Place} {q : Char} {r : List Char} (hp : p.Fresh (q :: r))
    (hq : Literal.isQuote q = true) (h : Literal.closing? q r = none) :
    (p.advance (q :: r)).unterminated? ≠ none := by
  have hin : (p.pass q).quoting = .inside q p.index := by
    simp only [Place.pass, hq, if_true]
  rw [Place.advance_cons, hp.next, Place.unterminated?, Place.advance_of_closing_none hq h hin]
  exact Option.some_ne_none _

theorem terminated_iff_skimmed {p : Place} {x : List Char} (hp : p.Fresh x) :
    (p.advance x).unterminated? = none ↔ Skimmed x := by
  induction hn : x.length using Nat.strongRecOn generalizing p x with
  | _ n ih =>
    cases x with
    | nil =>
      rw [Place.advance_nil]
      exact ⟨fun _ => .nil, fun _ => hp.clear.terminated⟩
    | cons c r =>
      rw [List.length_cons] at hn
      cases hc : Literal.isQuote c with
      | false =>
        rw [Place.advance_cons, hp.next, skimmed_cons_iff hc]
        exact ih r.length (by omega) (Place.fresh_of_outside (Place.pass_quoting p hc) r) rfl
      | true =>
        cases hcl : Literal.closing? c r with
        | none =>
          refine ⟨fun h => absurd h (hp.unterminated hc hcl), fun h => ?_⟩
          cases h with
          | plain h _ => rw [hc] at h; cases h
          | literal _ h _ => rw [hcl] at h; cases h
        | some m =>
          obtain ⟨p', hf, -, hr, -⟩ := hp.jump hc hcl
          have hl : (r.drop m).length < n := by
            rw [List.length_drop]
            omega
          rw [hr, ih _ hl hf rfl, skimmed_literal_iff hc hcl]

/-- The walk ends outside literals exactly if each literal can be jumped over. -/
theorem skimmed_iff {x : List Char} :
    Skimmed x ↔ ((Place.start 0 none).advance x).unterminated? = none :=
  (terminated_iff_skimmed (Place.fresh_start 0 none x)).symm

/-- A character stands outside literals if those in front of it have ended and it opens none. -/
theorem isOutside_start_iff {u : List Char} {c : Char} :
    ((Place.start 0 none).advance u).isOutside c = true ↔
      Skimmed u ∧ Literal.isQuote c = false := by
  rw [skimmed_iff, Place.isOutside_eq, Place.unterminated?_eq_none_iff]
  simp

/-! ## Quoted texts -/

namespace Literal

/-- A literal ends where it ends, unless its quote follows. -/
theorem closing?_append {q : Char} {r : List Char} {n : Nat} (h : closing? q r = some n)
    {y : List Char} (hy : ∀ c ∈ y.head?, c ≠ q) : closing? q (r ++ y) = some n := by
  fun_induction closing? q r generalizing n with
  | case1 => cases h
  | case2 c hc =>
    cases h
    cases y with
    | nil => simp [closing?, hc]
    | cons d y => simp [closing?, hc.1, hy d rfl]
  | case3 => cases h
  | case4 r ih =>
    obtain ⟨m, hm, rfl⟩ := Option.map_eq_some_iff.1 h
    simp [closing?, ih hm]
  | case5 d r hd =>
    cases h
    simp [closing?, hd]
  | case6 c d r hc ih =>
    obtain ⟨m, hm, rfl⟩ := Option.map_eq_some_iff.1 h
    have := ih hm
    rw [List.cons_append] at this
    simp [closing?, hc, this]

theorem closing?_double {q : Char} (hq : isQuote q = true) (v : List Char) {y : List Char}
    (hy : ∀ c ∈ y.head?, c ≠ q) :
    closing? q (double q v ++ q :: y) = some ((double q v).length + 1) := by
  have hne : q ≠ endMark := by
    rintro rfl
    exact absurd hq (by decide)
  induction v with
  | nil =>
    cases y with
    | nil => simp [double, closing?, hne]
    | cons d y => simp [double, closing?, hy d rfl]
  | cons c r ih =>
    rw [double]
    split
    · rw [List.cons_append, List.cons_append, closing?, if_pos rfl, if_pos rfl, ih]
      rfl
    · rename_i hc
      cases e : double q r ++ q :: y with
      | nil => simp at e
      | cons d t =>
        rw [List.cons_append, e, closing?, if_neg hc, ← e, ih]
        rfl

theorem quote_ne_nil (v : List Char) : quote v ≠ [] :=
  List.cons_ne_nil _ _

theorem getLast?_quote (v : List Char) : (quote v).getLast? = some '\'' := by
  rw [quote, ← List.cons_append, List.getLast?_concat]

end Literal

/-- Behind a text whose literals end, a text is skimmed as it is on its own, unless it starts with a
quote. -/
theorem Skimmed.append_iff {u v : List Char} (hu : Skimmed u)
    (hv : ∀ c ∈ v.head?, Literal.isQuote c = false) : Skimmed (u ++ v) ↔ Skimmed v := by
  induction hu with
  | nil => rw [List.nil_append]
  | plain hc _ ih => rw [List.cons_append, skimmed_cons_iff hc, ih]
  | @literal q r n hq hn _ ih =>
    have hne : ∀ c ∈ v.head?, c ≠ q := by
      rintro c hc rfl
      rw [hv c hc] at hq
      cases hq
    have hle := (Literal.closing?_le_length hn).2
    rw [List.cons_append, skimmed_literal_iff hq (Literal.closing?_append hn hne),
      List.drop_append_of_le_length hle, ih]

/-- A quoted text is one closed literal without sites. -/
theorem advance_quote {p : Place} {v : List Char} (hp : p.Fresh (Literal.quote v)) :
    sitesFrom p (Literal.quote v) = [] ∧
      (p.advance (Literal.quote v)).quoting = .closed '\'' p.index ∧
      (p.advance (Literal.quote v)).depth = p.depth := by
  have hc : Literal.isQuote '\'' = true := by decide
  have hq : (p.next '\'').quoting = .inside '\'' p.index := by
    rw [hp.next]
    rfl
  have hd : (p.next '\'').depth = p.depth := by
    rw [hp.next]
    rfl
  have hcl := Literal.closing?_double hc v (y := []) (fun c h => by cases h)
  obtain ⟨h₁, h₂, h₃, -⟩ := Place.advance_closing hc hcl hq
  have e : (Literal.double '\'' v ++ ['\'']).take ((Literal.double '\'' v).length + 1) =
      Literal.double '\'' v ++ ['\''] := by
    apply List.take_of_length_le
    simp
  rw [e] at h₁ h₂ h₃
  rw [Literal.quote, sitesFrom_cons_of_inside (Place.isOutside_of_isQuote p hc), Place.advance_cons]
  exact ⟨h₃, h₁, by rw [h₂, hd]⟩

theorem balanced_quote (v : List Char) : Balanced (Literal.quote v) := by
  obtain ⟨h₁, h₂, h₃⟩ := advance_quote (Place.fresh_start 0 none (Literal.quote v))
  refine ⟨⟨?_, ?_⟩, h₃⟩
  · rw [Place.unterminated?, h₂]
  · rw [h₁]
    exact fun s hs => by cases hs

end TableQuery
