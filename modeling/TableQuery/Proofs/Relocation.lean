import TableQuery.Proofs.RespelledReaders
import TableQuery.Proofs.Twins

/-!
# Relocated pieces

Where a piece stands in the input shows in the positions of errors and nowhere else: a reader of a
piece that is moved by `n` bytes gives the same result, with its pieces moved by `n` bytes, or the
same error with its range moved by `n` bytes (`Relocated`). To move a piece is to respell it with
the same characters, so that each reader of a part of a `SELECT` is known to do so.

Two pieces with the same characters are therefore read alike (`agree_of_relocated`).
-/

namespace TableQuery

open Text

/-- The error with its range moved on by `n` bytes. -/
def ParseError.shift (n : Nat) (e : ParseError) : ParseError :=
  { e with start := e.start + n, stop := e.stop + n }

/-- The same characters, `n` bytes further on. -/
def Piece.relocate (n : Nat) (p : Piece) : Piece :=
  ⟨p.chars, p.start + n⟩

variable {n : Nat}

theorem ParseError.respell_shift (e : ParseError) : e.respell (.shift n) = e.shift n := by
  have h : e.text.map (Respelling.shift n).char = e.text := String.map_id
  rw [respell, h]
  rfl

theorem Piece.respell_shift (p : Piece) : p.respell (.shift n) = p.relocate n := by
  have h : p.chars.map (Respelling.shift n).char = p.chars := List.map_id _
  rw [respell, h]
  rfl

/-! ## Moved computations -/

/-- The second computation gives a related result, or the error of the first moved on by `n`
bytes. -/
inductive Relocated {α β : Type} (n : Nat) (R : α → β → Prop) :
    Except ParseError α → Except ParseError β → Prop
  | error {e : ParseError} : Relocated n R (.error e) (.error (e.shift n))
  | ok {a : α} {b : β} : R a b → Relocated n R (.ok a) (.ok b)

/-- What follows respellings follows a move. -/
theorem relocated_of_outcome {α β : Type} {R : α → β → Prop} {φ : α → β} {x : Except ParseError α}
    {y : Except ParseError β} (h : y = (Respelling.shift n).outcome φ x) (hφ : ∀ a, R a (φ a)) :
    Relocated n R x y := by
  subst h
  cases x with
  | error e =>
    rw [Respelling.outcome_error, e.respell_shift]
    exact .error
  | ok a => exact .ok (hφ a)

/-- A reader that gives moved pieces the moved answer reads pieces with the same characters
alike. -/
theorem agree_of_relocated {α : Type} {read : Piece → Except ParseError α} {R : Nat → α → α → Prop}
    (h : ∀ p n, Relocated n (R n) (read p) (read (p.relocate n))) {p p' : Piece}
    (e : p.chars = p'.chars) :
    Agree (fun a b => ∃ c i j, R i c a ∧ R j c b) (read p) (read p') := by
  have key : ∀ q : Piece, (Piece.mk q.chars 0).relocate q.start = q := by
    intro q
    simp [Piece.relocate]
  have hp := h ⟨p.chars, 0⟩ p.start
  have hp' := h ⟨p'.chars, 0⟩ p'.start
  rw [key] at hp hp'
  rw [e] at hp
  generalize read ⟨p'.chars, 0⟩ = base at hp hp'
  generalize read p = x at hp
  generalize read p' = y at hp'
  cases hp with
  | error =>
    cases hp' with
    | error => exact .error rfl
  | ok ha =>
    cases hp' with
    | ok hb => exact .ok ⟨_, _, _, ha, hb⟩

/-- In particular, if its answers hold no pieces. -/
theorem agree_of_relocated_eq {α : Type} {read : Piece → Except ParseError α}
    (h : ∀ p n, Relocated n (· = ·) (read p) (read (p.relocate n))) {p p' : Piece}
    (e : p.chars = p'.chars) :
    Agree (· = ·) (read p) (read p') := by
  have hr := agree_of_relocated (R := fun _ => (· = ·)) h e
  generalize read p = x at hr
  generalize read p' = y at hr
  cases hr with
  | error hk => exact .error hk
  | ok hab =>
    obtain ⟨c, _, _, rfl, rfl⟩ := hab
    exact .ok rfl

/-! ## Results with the same characters -/

theorem map_string_id : String.map (Respelling.shift n).char = id :=
  funext fun _ => String.map_id

theorem Join.mapChars_shift : mapChars (Respelling.shift n).char = id :=
  funext fun j => by rw [mapChars, map_string_id]; rfl

theorem Condition.mapChars_shift : mapChars (Respelling.shift n).char = id :=
  funext fun c => by rw [mapChars, map_string_id]; rfl

theorem SortKey.mapChars_shift : mapChars (Respelling.shift n).char = id :=
  funext fun k => by rw [mapChars, map_string_id]; rfl

/-! ## Readers -/

theorem ItemList.relocated_parse (role : ListRole) (p : Piece) :
    Relocated n (· = ·) (parse p role) (parse (p.relocate n) role) := by
  rw [← p.respell_shift]
  refine relocated_of_outcome (respell_parse p role) fun a => ?_
  rw [map_string_id, List.map_id]

theorem SelectHead.relocated_parse (p : Piece) :
    Relocated n (fun a b => b = { a with fields := a.fields.relocate n }) (SelectHead.parse p)
      (SelectHead.parse (p.relocate n)) := by
  rw [← p.respell_shift]
  refine relocated_of_outcome (respell_parse p) fun a => ?_
  rw [respell, map_string_id, Piece.respell_shift]
  rfl

theorem Join.relocated_parse (kind : JoinKind) (p : Piece) :
    Relocated n (· = ·) (parse kind p) (parse kind (p.relocate n)) := by
  rw [← p.respell_shift]
  refine relocated_of_outcome (respell_parse kind p) fun a => ?_
  rw [mapChars_shift, id]

theorem Condition.relocated_parse (p : Piece) :
    Relocated n (· = ·) (parse p) (parse (p.relocate n)) := by
  rw [← p.respell_shift]
  refine relocated_of_outcome (respell_parse p) fun a => ?_
  rw [mapChars_shift, id]

theorem Where.relocated_parse (p : Piece) :
    Relocated n (· = ·) (parse p) (parse (p.relocate n)) := by
  rw [← p.respell_shift]
  refine relocated_of_outcome (respell_parse p) fun a => ?_
  rw [Condition.mapChars_shift, List.map_id]

theorem SortKey.relocated_parse (p : Piece) :
    Relocated n (· = ·) (parse p) (parse (p.relocate n)) := by
  rw [← p.respell_shift]
  refine relocated_of_outcome (respell_parse p) fun a => ?_
  rw [mapChars_shift, List.map_id]

theorem Limit.relocated_parse (p : Piece) :
    Relocated n (· = ·) (Limit.parse p) (Limit.parse (p.relocate n)) := by
  rw [← p.respell_shift]
  exact relocated_of_outcome (respell_parse p) fun _ => rfl

end TableQuery
