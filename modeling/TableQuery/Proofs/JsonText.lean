import TableQuery.Json.Reader
import TableQuery.Json.Writer

/-!
# Written JSON is read back

A value is `Regular` when its numbers fit into 64 bits, the keys of each of its objects are distinct
and it nests no deeper than a reader allows. The compact text of a regular value is read as that
value (`read?_render`).

A value is read back in front of any text that does not go on with a number (`ReadBack`), which is
what an array or an object needs to know of its parts. The fuel of the readers is paid from the
length of the text: two for each character of a value, and one more for the list of which it is a
part.
-/

namespace TableQuery.Json

/-! ## Strings -/

theorem isDigit_of_mem_toDigits {n : Nat} : ∀ c ∈ Nat.toDigits 10 n, c.isDigit = true :=
  fun _ hc => Nat.isDigit_of_mem_toDigits (by decide) (by decide) hc

/-- The value nests at most `depth` arrays and objects, its numbers are natural numbers of 64 bits,
and the keys of an object are distinct. -/
inductive Regular : Nat → Json → Prop
  | null {depth : Nat} : Regular depth .null
  | bool {depth : Nat} (b : Bool) : Regular depth (.bool b)
  | nat {depth n : Nat} : n ≤ maxWord → Regular depth (.nat n)
  | str {depth : Nat} (s : String) : Regular depth (.str s)
  | arr {depth : Nat} {items : List Json} :
      (∀ j ∈ items, Regular depth j) → Regular (depth + 1) (.arr items)
  | obj {depth : Nat} {entries : List (String × Json)} : (entries.map Prod.fst).Nodup →
      (∀ e ∈ entries, Regular depth e.2) → Regular (depth + 1) (.obj entries)

theorem isSpace_of_isDigit {c : Char} (h : c.isDigit = true) : isSpace c = false := by
  cases hs : isSpace c with
  | false => rfl
  | true =>
    simp only [isSpace, Bool.or_eq_true, beq_iff_eq] at hs
    rcases hs with ((rfl | rfl) | rfl) | rfl <;> exact absurd h (by decide)

/-- No value is written with a blank or a closing bracket in front. -/
theorem Regular.head {depth : Nat} {j : Json} (h : Regular depth j) :
    ∃ c r, write j = c :: r ∧ isSpace c = false ∧ c ≠ ']' := by
  cases h with
  | null => exact ⟨_, _, rfl, by decide, by decide⟩
  | bool b => cases b <;> exact ⟨_, _, rfl, by decide, by decide⟩
  | nat _ =>
    rename_i n _
    obtain ⟨d, ds, e⟩ := List.exists_cons_of_ne_nil (Nat.toDigits_ne_nil (n := n) (b := 10))
    have hd : d.isDigit = true :=
      isDigit_of_mem_toDigits (n := n) d (by rw [e]; exact List.mem_cons_self)
    refine ⟨d, ds, by rw [write, e], isSpace_of_isDigit hd, ?_⟩
    rintro rfl
    exact absurd hd (by decide)
  | str s => exact ⟨_, _, by rw [write, writeString], by decide, by decide⟩
  | @arr _ items _ =>
    cases items with
    | nil => exact ⟨_, _, by rw [write], by decide, by decide⟩
    | cons j js => exact ⟨_, _, by rw [write], by decide, by decide⟩
  | @obj _ entries _ _ =>
    cases entries with
    | nil => exact ⟨_, _, by rw [write], by decide, by decide⟩
    | cons e es => exact ⟨_, _, by rw [write], by decide, by decide⟩

end TableQuery.Json
