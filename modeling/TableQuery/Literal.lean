/-!
# Quoted literals

A literal stands between two single or two double quotes, and a quote of its own kind inside it is
written twice. `quote` writes a text as a single-quoted literal, `unquote` takes one layer of quotes
off, and `closing?` finds where a literal that has been opened ends.
-/

namespace TableQuery.Literal

/-- The two characters that open a literal. -/
def isQuote (c : Char) : Bool :=
  c == '\'' || c == '"'

/-! ## Writing -/

/-- Every `q` of the text written twice. -/
def double (q : Char) : List Char → List Char
  | [] => []
  | c :: r => if c = q then q :: q :: double q r else c :: double q r

/-- The text as a single-quoted literal. -/
def quote (cs : List Char) : List Char :=
  '\'' :: (double '\'' cs ++ ['\''])

/-! ## Reading -/

/-- Every pair of adjacent `q`s, found from the left, written once. -/
def undouble (q : Char) : List Char → List Char
  | [] => []
  | [c] => [c]
  | c :: d :: r => if c = q ∧ d = q then q :: undouble q r else c :: undouble q (d :: r)

/-- The text without one layer of quotes, if its first and its last character are the same quote;
any other text as it is. -/
def unquote : List Char → List Char
  | [] => []
  | q :: r => if isQuote q ∧ r.getLast? = some q then undouble q r.dropLast else q :: r

theorem undouble_double (q : Char) (cs : List Char) : undouble q (double q cs) = cs := by
  induction cs with
  | nil => rfl
  | cons c r ih =>
    by_cases h : c = q
    · simp [double, undouble, h, ih]
    · cases hd : double q r with
      | nil =>
        rw [hd] at ih
        simp [double, undouble, h, ← ih]
      | cons d s =>
        rw [hd] at ih
        simp [double, undouble, h, hd, ih]

/-- Taking the quotes off a quoted text gives the text back. -/
theorem unquote_quote (cs : List Char) : unquote (quote cs) = cs := by
  simp [quote, unquote, isQuote, undouble_double]

/-! ## Scanning -/

/-- The character that is read past the end of a text. -/
def endMark : Char := '\x00'

/-- The number of characters up to and including the quote that closes a literal opened by `q`,
counted from behind the opening quote. Two `q`s in a row belong to the literal. Behind the last
character stands the `endMark`, which a literal opened by that very character takes for a second
quote. -/
def closing? (q : Char) : List Char → Option Nat
  | [] => none
  | [c] => if c = q ∧ q ≠ endMark then some 1 else none
  | c :: d :: r =>
    if c = q then
      if d = q then (closing? q r).map (· + 2) else some 1
    else
      (closing? q (d :: r)).map (· + 1)

theorem closing?_le_length {q : Char} {cs : List Char} {n : Nat} (h : closing? q cs = some n) :
    0 < n ∧ n ≤ cs.length := by
  fun_induction closing? q cs generalizing n with
  | case1 => simp at h
  | case2 c hc => simp_all; omega
  | case3 => simp at h
  | case4 r ih =>
    obtain ⟨m, hm, rfl⟩ := Option.map_eq_some_iff.1 h
    have := ih hm
    simp only [List.length_cons]
    omega
  | case5 d r hd =>
    simp only [Option.some.injEq] at h
    simp only [List.length_cons]
    omega
  | case6 c d r hc ih =>
    obtain ⟨m, hm, rfl⟩ := Option.map_eq_some_iff.1 h
    have := ih hm
    simp only [List.length_cons] at this ⊢
    omega

end TableQuery.Literal
