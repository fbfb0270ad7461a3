import TableQuery.Proofs.LiteralScan
import TableQuery.Proofs.Search

/-!
# Scanning a text for delimiters

What makes a text balanced can be said without the walk and its places: read from the left, literals
are jumped over as wholes and only parentheses count, and no state is kept but the number of those
that are open. `Scanned d x` says that reading `x` inside `d` parentheses meets no mistake and
leaves none open. It holds of a text on its own exactly if the text is balanced
(`scanned_iff_balanced`).
-/

namespace TableQuery

open Text Outline

/-- Reading the text inside `depth` parentheses, every literal ends, a parenthesis closes only if
one is open, and none is open at the end. -/
inductive Scanned : Nat → List Char → Prop
  | nil : Scanned 0 []
  | literal {depth : Nat} {q : Char} {r : List Char} {n : Nat} : Literal.isQuote q = true →
      Literal.closing? q r = some n → Scanned depth (r.drop n) → Scanned depth (q :: r)
  | opening {depth : Nat} {r : List Char} : Scanned (depth + 1) r → Scanned depth ('(' :: r)
  | closing {depth : Nat} {r : List Char} : Scanned depth r → Scanned (depth + 1) (')' :: r)
  | other {depth : Nat} {c : Char} {r : List Char} : Literal.isQuote c = false → c ≠ '(' → c ≠ ')' →
      Scanned depth r → Scanned depth (c :: r)

namespace Scanned

theorem nil_iff {d : Nat} : Scanned d [] ↔ d = 0 := by
  constructor
  · intro h
    cases h
    rfl
  · rintro rfl
    exact .nil

theorem literal_iff {d : Nat} {q : Char} {r : List Char} (hq : Literal.isQuote q = true) :
    Scanned d (q :: r) ↔ ∃ n, Literal.closing? q r = some n ∧ Scanned d (r.drop n) := by
  constructor
  · intro h
    cases h with
    | literal _ hn h => exact ⟨_, hn, h⟩
    | opening _ => cases hq
    | closing _ => cases hq
    | other hc _ _ _ => rw [hq] at hc; cases hc
  · rintro ⟨n, hn, h⟩
    exact .literal hq hn h

theorem opening_iff {d : Nat} {r : List Char} : Scanned d ('(' :: r) ↔ Scanned (d + 1) r := by
  constructor
  · intro h
    cases h with
    | literal hq _ _ => cases hq
    | opening h => exact h
    | other _ hc _ _ => exact absurd rfl hc
  · exact .opening

theorem closing_iff {d : Nat} {r : List Char} :
    Scanned d (')' :: r) ↔ d ≠ 0 ∧ Scanned (d - 1) r := by
  constructor
  · intro h
    cases h with
    | literal hq _ _ => cases hq
    | closing h => exact ⟨Nat.succ_ne_zero _, h⟩
    | other _ _ hc _ => exact absurd rfl hc
  · rintro ⟨hd, h⟩
    obtain ⟨e, rfl⟩ := Nat.exists_eq_succ_of_ne_zero hd
    exact .closing h

theorem other_iff {d : Nat} {c : Char} {r : List Char} (hc : Literal.isQuote c = false)
    (hl : c ≠ '(') (hr : c ≠ ')') : Scanned d (c :: r) ↔ Scanned d r := by
  constructor
  · intro h
    cases h with
    | literal hq _ _ => rw [hc] at hq; cases hq
    | opening _ => exact absurd rfl hl
    | closing _ => exact absurd rfl hr
    | other _ _ _ h => exact h
  · exact .other hc hl hr

/-- The parentheses that the second text closes may be open in front of the first. -/
theorem append {d e : Nat} {x y : List Char} (hx : Scanned d x) (hy : Scanned e y)
    (hq : ∀ c ∈ y.head?, Literal.isQuote c = false) : Scanned (d + e) (x ++ y) := by
  induction hx with
  | nil => rwa [Nat.zero_add]
  | @literal d q r n hquote hn _ ih =>
    have hne : ∀ c ∈ y.head?, c ≠ q := by
      rintro c hc rfl
      rw [hq c hc] at hquote
      cases hquote
    rw [← List.drop_append_of_le_length (Literal.closing?_le_length hn).2] at ih
    exact .literal hquote (Literal.closing?_append hn hne) ih
  | opening _ ih =>
    rw [Nat.add_right_comm] at ih
    exact .opening ih
  | closing _ ih =>
    rw [Nat.add_right_comm]
    exact .closing ih
  | other hc hl hr _ ih => exact .other hc hl hr ih

end Scanned

/-- The walk from a place meets no mistake and ends outside literals and parentheses. -/
structure Place.Settles (p : Place) (x : List Char) : Prop where
  terminated : (p.advance x).unterminated? = none
  opened : ∀ s ∈ sitesFrom p x, s.isTop ')' = false
  closed : (p.advance x).depth = 0

/-- Outside literals, the first character only has to be no parenthesis that closes none. -/
theorem Place.Fresh.settles_cons {p : Place} {c : Char} {r : List Char} (hp : p.Fresh (c :: r))
    (hc : Literal.isQuote c = false) :
    p.Settles (c :: r) ↔ (p.depth = 0 → c ≠ ')') ∧ (p.pass c).Settles r := by
  have ho : p.isOutside c = true := by rw [hp.isOutside, hc]; rfl
  have htop : (p.site c r).isTop ')' = false ↔ (p.depth = 0 → c ≠ ')') := by
    simp only [Site.isTop, Place.site, Bool.and_eq_false_iff, beq_eq_false_iff_ne, ne_eq]
    exact Decidable.imp_iff_not_or.symm
  constructor
  · rintro ⟨h₁, h₂, h₃⟩
    rw [Place.advance_cons, hp.next] at h₁ h₃
    rw [sitesFrom_cons_of_outside ho, List.forall_mem_cons, hp.next] at h₂
    exact ⟨htop.1 h₂.1, h₁, h₂.2, h₃⟩
  · rintro ⟨ht, h₁, h₂, h₃⟩
    rw [← hp.next] at h₁ h₂ h₃
    refine ⟨h₁, ?_, h₃⟩
    rw [sitesFrom_cons_of_outside ho]
    exact List.forall_mem_cons.2 ⟨htop.2 ht, h₂⟩

/-- The walk over a text does what scanning the text says. -/
theorem scanned_iff_settles {p : Place} {x : List Char} (hp : p.Fresh x) :
    Scanned p.depth x ↔ p.Settles x := by
  -- a literal is jumped over, so that the induction is on the length
  induction hn : x.length using Nat.strongRecOn generalizing p x with
  | _ n ih =>
    cases x with
    | nil =>
      rw [Scanned.nil_iff]
      exact ⟨fun h => ⟨hp.clear.terminated, fun s hs => (by cases hs), h⟩, fun h => h.closed⟩
    | cons c r =>
      rw [List.length_cons] at hn
      cases hc : Literal.isQuote c with
      | true =>
        rw [Scanned.literal_iff hc]
        cases hcl : Literal.closing? c r with
        | none =>
          constructor
          · rintro ⟨m, hm, -⟩
            cases hm
          · exact fun h => absurd h.terminated (hp.unterminated hc hcl)
        | some m =>
          obtain ⟨p', hf, hd, hr, hs⟩ := hp.jump hc hcl
          have hl : (r.drop m).length < n := by
            rw [List.length_drop]
            omega
          have key : Scanned p.depth (r.drop m) ↔ p.Settles (c :: r) := by
            rw [← hd, ih _ hl hf rfl]
            constructor
            · rintro ⟨h₁, h₂, h₃⟩
              exact ⟨by rwa [hr], by rwa [hs], by rwa [hr]⟩
            · rintro ⟨h₁, h₂, h₃⟩
              exact ⟨by rwa [← hr], by rwa [← hs], by rwa [← hr]⟩
          rw [← key]
          constructor
          · rintro ⟨m', hm, h⟩
            cases hm
            exact h
          · exact fun h => ⟨m, rfl, h⟩
      | false =>
        have hf : (p.pass c).Fresh r := Place.fresh_of_outside (Place.pass_quoting p hc) r
        rw [hp.settles_cons hc, ← ih r.length (by omega) hf rfl]
        by_cases hl : c = '('
        · subst hl
          rw [Scanned.opening_iff]
          exact ⟨fun h => ⟨fun _ => by decide, h⟩, And.right⟩
        · by_cases hr : c = ')'
          · subst hr
            rw [Scanned.closing_iff]
            exact and_congr ⟨fun h e => absurd e h, fun h e => h e rfl⟩ Iff.rfl
          · have hd : (p.pass c).depth = p.depth := by
              simp only [Place.pass, if_neg hl, if_neg hr]
            rw [Scanned.other_iff hc hl hr, hd]
            exact ⟨fun h => ⟨fun _ => hr, h⟩, And.right⟩

/-- A text can be scanned on its own exactly if it is balanced. -/
theorem scanned_iff_balanced {x : List Char} : Scanned 0 x ↔ Balanced x := by
  refine (scanned_iff_settles (Place.fresh_start 0 none x)).trans ⟨fun h => ?_, fun h => ?_⟩
  · exact ⟨⟨h.terminated, h.opened⟩, h.closed⟩
  · exact ⟨h.terminated, h.opened, h.closed⟩

/-- A balanced text in parentheses, in front of a balanced text. -/
theorem Balanced.enclose {x y : List Char} (hx : Balanced x) (hy : Balanced y) :
    Balanced ('(' :: (x ++ ')' :: y)) := by
  rw [← scanned_iff_balanced] at hx hy ⊢
  refine .opening (hx.append (.closing hy) ?_)
  rintro c hc
  cases hc
  rfl

instance (x : List Char) : Decidable (Scanned 0 x) :=
  decidable_of_iff (Balanced x) scanned_iff_balanced.symm

example : Scanned 0 "f(a, 'it''s (') b".toList ∧ ¬Scanned 0 "f(a))(".toList := by decide

end TableQuery
