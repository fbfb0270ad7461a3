import TableQuery.Select

/-!
# Outcomes of reading

What is true of every refusal of a reader, and of every result: `Yields E Q x` says that `x` is
either refused with an error of which `E` holds, or gives a value of which `Q` holds. Readers are
computations in sequence, so such facts are put together from the rules for `bind` and `mapM`, with
one rule for each of the checks that all readers share.
-/

namespace TableQuery

/-- The computation is refused with an error that satisfies `E`, or gives a value that satisfies
`Q`. -/
inductive Yields {α : Type} (E : ParseError → Prop) (Q : α → Prop) : Except ParseError α → Prop
  | error {e : ParseError} : E e → Yields E Q (.error e)
  | ok {a : α} : Q a → Yields E Q (.ok a)

namespace Yields

variable {α β : Type} {E : ParseError → Prop} {Q : α → Prop} {R : β → Prop}

theorem of_error {x : Except ParseError α} (h : Yields E Q x) {e : ParseError} (hx : x = .error e) :
    E e := by
  cases h with
  | error he =>
    cases hx
    exact he
  | ok _ => cases hx

theorem of_ok {x : Except ParseError α} (h : Yields E Q x) {a : α} (hx : x = .ok a) : Q a := by
  cases h with
  | error _ => cases hx
  | ok ha =>
    cases hx
    exact ha

/-- Only what the computation really ends with matters. -/
theorem of_forall {x : Except ParseError α} (he : ∀ e, x = .error e → E e)
    (ha : ∀ a, x = .ok a → Q a) :
    Yields E Q x := by
  cases x with
  | error e => exact .error (he e rfl)
  | ok a => exact .ok (ha a rfl)

theorem mono {E' : ParseError → Prop} {Q' : α → Prop} {x : Except ParseError α} (h : Yields E Q x)
    (he : ∀ e, E e → E' e) (ha : ∀ a, Q a → Q' a) : Yields E' Q' x := by
  cases h with
  | error h => exact .error (he _ h)
  | ok h => exact .ok (ha _ h)

theorem bind {x : Except ParseError α} {f : α → Except ParseError β} (h : Yields E Q x)
    (hf : ∀ a, Q a → Yields E R (f a)) : Yields E R (x >>= f) := by
  cases h with
  | error h => exact .error h
  | ok h => exact hf _ h

theorem map {x : Except ParseError α} {f : α → β} (h : Yields E Q x) (hf : ∀ a, Q a → R (f a)) :
    Yields E R (f <$> x) := by
  cases h with
  | error h => exact .error h
  | ok h => exact .ok (hf _ h)

theorem mapM {xs : List α} {f : α → Except ParseError β} (h : ∀ a ∈ xs, Yields E R (f a)) :
    Yields E (fun ys => ∀ y ∈ ys, R y) (xs.mapM f) := by
  induction xs with
  | nil => exact .ok fun y hy => by cases hy
  | cons a xs ih =>
    obtain ⟨ha, hxs⟩ := List.forall_mem_cons.1 h
    rw [List.mapM_cons]
    refine ha.bind fun y hy => (ih hxs).bind fun ys hys => ?_
    exact .ok (List.forall_mem_cons.2 ⟨hy, hys⟩)

end Yields

/-! ## Checks and searches -/

namespace Piece

variable {E : ParseError → Prop} {p : Piece} {o : Outline}

theorem yields_requireTerminated
    (h : ∀ i, o.unterminated? = some i → E (p.faultFrom .unterminatedLiteral i)) :
    Yields E (fun _ => o.unterminated? = none) (p.requireTerminated o) := by
  rw [requireTerminated]
  cases hi : o.unterminated? with
  | none => exact .ok rfl
  | some i => exact .error (h i hi)

theorem yields_requireClosed (h : ∀ i, o.unclosed? = some i → E (p.faultFrom .unclosedOpen i)) :
    Yields E (fun _ => o.unclosed? = none) (p.requireClosed o) := by
  rw [requireClosed]
  cases hi : o.unclosed? with
  | none => exact .ok rfl
  | some i => exact .error (h i hi)

theorem yields_requireOpened
    (h : ∀ s, o.unexpectedClose? = some s → E (p.faultAt .unexpectedClose s.index)) :
    Yields E (fun _ => o.unexpectedClose? = none) (p.requireOpened o) := by
  rw [requireOpened]
  cases hs : o.unexpectedClose? with
  | none => exact .ok rfl
  | some s => exact .error (h s hs)

theorem yields_requireBalanced (hclose : ∀ i, E (p.faultAt .unexpectedClose i))
    (hliteral : ∀ i, E (p.faultFrom .unterminatedLiteral i))
    (hopen : ∀ i, E (p.faultFrom .unclosedOpen i)) :
    Yields E (fun _ => p.requireBalanced o = .ok ()) (p.requireBalanced o) := by
  have h : Yields E (fun _ => True) (p.requireBalanced o) := by
    refine (yields_requireOpened fun s _ => hclose s.index).bind fun _ _ => ?_
    refine (yields_requireTerminated fun i _ => hliteral i).bind fun _ _ => ?_
    exact (yields_requireClosed fun i _ => hopen i).mono (fun _ h => h) fun _ _ => trivial
  exact .of_forall (fun e => h.of_error) fun _ h => h

/-- A search is refused only for a literal that does not end. -/
theorem yields_search {α : Type} {f : Site → Option α}
    (h : ∀ i, o.unterminated? = some i → E (p.faultFrom .unterminatedLiteral i)) :
    Yields E (fun a => a = o.sites.findSome? f) (p.search o f) := by
  rw [search]
  cases hf : o.sites.findSome? f with
  | some a => exact .ok rfl
  | none => exact (yields_requireTerminated h).bind fun _ _ => .ok rfl

end Piece

namespace SelectQuery

variable {E : ParseError → Prop}

theorem yields_optional {α : Type} {body : Option Piece} {read : Piece → Except ParseError α}
    (h : ∀ b, body = some b → Yields E (fun _ => True) (read b)) :
    Yields E (fun _ => True) (optional body read) := by
  unfold optional
  split
  · exact .ok trivial
  · exact (h _ rfl).map fun _ _ => trivial

theorem yields_joinOf {c : Clauses}
    (h : ∀ kind b, c.join = some (kind, b) → Yields E (fun _ => True) (Join.parse kind b)) :
    Yields E (fun _ => True) (joinOf c) := by
  unfold joinOf
  split
  · exact .ok trivial
  · rename_i kind body e
    exact (h kind body e).map fun _ _ => trivial

end SelectQuery

end TableQuery
