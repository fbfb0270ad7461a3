import Mathlib.Data.List.TakeWhile
import TableQuery.Piece

/-!
# Trimming and cutting

A text is `Tight` when no blank stands at either of its ends; trimming leaves exactly the tight
texts unchanged (`trim_eq_self`), and takes nothing but blanks away (`exists_blank_trim_blank`).
`cut_of_eq` reads a piece off its text: a range that is known as a part of the text is cut to the
trimmed part.
-/

namespace TableQuery.Text

/-! ## Deciding about the characters of a text

Characters form a finite type, and a statement about all of them may be decided by trying each.
These instances look at the characters of the text only. -/

instance (priority := high) decidableForallChar (P : Char → Prop) [DecidablePred P]
    (cs : List Char) :
    Decidable (∀ c ∈ cs, P c) :=
  List.decidableBAll P cs

instance (priority := high) decidableForallOptionChar (P : Char → Prop) [DecidablePred P]
    (c : Option Char) :
    Decidable (∀ d ∈ c, P d) :=
  Option.decidableForallMem c

/-! ## Blanks -/

/-- All characters of the text are blanks. -/
def Blank (cs : List Char) : Prop :=
  ∀ c ∈ cs, isBlank c = true

instance (cs : List Char) : Decidable (Blank cs) :=
  inferInstanceAs (Decidable (∀ c ∈ cs, _))

/-- No blank stands at the start or at the end of the text. -/
structure Tight (cs : List Char) : Prop where
  head : ∀ c ∈ cs.head?, isBlank c = false
  last : ∀ c ∈ cs.getLast?, isBlank c = false

instance (cs : List Char) : Decidable (Tight cs) :=
  decidable_of_iff ((∀ c ∈ cs.head?, isBlank c = false) ∧ ∀ c ∈ cs.getLast?, isBlank c = false)
    ⟨fun h => ⟨h.1, h.2⟩, fun h => ⟨h.head, h.last⟩⟩

theorem blank_nil : Blank [] := by simp [Blank]

theorem blank_append {cs ds : List Char} : Blank (cs ++ ds) ↔ Blank cs ∧ Blank ds := by
  simp only [Blank, List.mem_append, or_imp, forall_and]

theorem blank_takeWhile (cs : List Char) : Blank (cs.takeWhile isBlank) :=
  fun _ h => List.mem_takeWhile_imp h

/-! ## One end -/

theorem trimStart_blank_append {b : List Char} (hb : Blank b) (cs : List Char) :
    trimStart (b ++ cs) = trimStart cs :=
  List.dropWhile_append_of_pos hb

theorem trimStart_eq_self {cs : List Char} (h : ∀ c ∈ cs.head?, isBlank c = false) :
    trimStart cs = cs := by
  cases cs with
  | nil => rfl
  | cons c r => rw [trimStart, List.dropWhile_cons_of_neg (by simp [h c rfl])]

theorem trimStart_eq_iff {x y : List Char} (hy : ∀ c ∈ y.head?, isBlank c = false) :
    trimStart x = y ↔ ∃ g, Blank g ∧ x = g ++ y := by
  constructor
  · rintro rfl
    exact ⟨_, blank_takeWhile x, List.takeWhile_append_dropWhile.symm⟩
  · rintro ⟨g, hg, rfl⟩
    rw [trimStart_blank_append hg, trimStart_eq_self hy]

/-- Blanks end at the first character that is none. -/
theorem gap_unique {g g' y y' : List Char} (hg : Blank g) (hg' : Blank g')
    (hy : ∀ c ∈ y.head?, isBlank c = false) (hy' : ∀ c ∈ y'.head?, isBlank c = false)
    (e : g ++ y = g' ++ y') : g = g' ∧ y = y' := by
  obtain rfl : y = y' :=
    ((trimStart_eq_iff hy).2 ⟨g, hg, rfl⟩).symm.trans ((trimStart_eq_iff hy').2 ⟨g', hg', e⟩)
  exact ⟨List.append_cancel_right e, rfl⟩

theorem trimEnd_append_blank {b : List Char} (hb : Blank b) (cs : List Char) :
    trimEnd (cs ++ b) = trimEnd cs := by
  have hr : ∀ c ∈ b.reverse, isBlank c = true := fun c hc => hb c (List.mem_reverse.1 hc)
  rw [trimEnd, List.reverse_append, List.dropWhile_append_of_pos hr, trimEnd]

theorem trimEnd_eq_self {cs : List Char} (h : ∀ c ∈ cs.getLast?, isBlank c = false) :
    trimEnd cs = cs := by
  have hr : trimStart cs.reverse = cs.reverse := trimStart_eq_self (by rwa [List.head?_reverse])
  rw [trimStart] at hr
  rw [trimEnd, hr, List.reverse_reverse]

theorem exists_trimEnd_blank (cs : List Char) : ∃ b, Blank b ∧ cs = trimEnd cs ++ b := by
  refine ⟨(cs.reverse.takeWhile isBlank).reverse, ?_, ?_⟩
  · intro c hc
    exact List.mem_takeWhile_imp (List.mem_reverse.1 hc)
  · rw [trimEnd, ← List.reverse_append, List.takeWhile_append_dropWhile, List.reverse_reverse]

theorem head?_dropWhile_isBlank (cs : List Char) :
    ∀ c ∈ (cs.dropWhile isBlank).head?, isBlank c = false := by
  intro c hc
  have := List.head?_dropWhile_not isBlank cs
  rw [hc] at this
  simpa using this

theorem getLast?_trimEnd (cs : List Char) : ∀ c ∈ (trimEnd cs).getLast?, isBlank c = false := by
  intro c hc
  rw [trimEnd, List.getLast?_reverse] at hc
  exact head?_dropWhile_isBlank _ c hc

/-! ## Both ends -/

theorem trim_eq_self {cs : List Char} (h : Tight cs) : trim cs = cs := by
  rw [trim, trimStart_eq_self h.head, trimEnd_eq_self h.last]

theorem trim_blank_append {b : List Char} (hb : Blank b) (cs : List Char) :
    trim (b ++ cs) = trim cs := by
  rw [trim, trimStart_blank_append hb, trim]

theorem trim_append_blank {b : List Char} (hb : Blank b) (cs : List Char) :
    trim (cs ++ b) = trim cs := by
  unfold trim trimStart
  rw [List.dropWhile_append]
  split
  · rename_i h
    rw [List.isEmpty_iff] at h
    have hd : b.dropWhile isBlank = [] := by
      rw [List.dropWhile_eq_nil_iff]
      exact hb
    rw [h, hd]
  · exact trimEnd_append_blank hb _

/-- What trimming takes away are blanks. -/
theorem exists_blank_trim_blank (cs : List Char) :
    ∃ b b', Blank b ∧ Blank b' ∧ cs = b ++ (trim cs ++ b') := by
  obtain ⟨b', hb', e⟩ := exists_trimEnd_blank (trimStart cs)
  refine ⟨cs.takeWhile isBlank, b', blank_takeWhile cs, hb', ?_⟩
  rw [trim, ← e, trimStart, List.takeWhile_append_dropWhile]

theorem tight_trim (cs : List Char) : Tight (trim cs) := by
  refine ⟨?_, getLast?_trimEnd _⟩
  intro c hc
  obtain ⟨b', -, e⟩ := exists_trimEnd_blank (trimStart cs)
  apply head?_dropWhile_isBlank cs c
  rw [← trimStart, e, List.head?_append]
  rw [trim] at hc
  rw [hc]
  rfl

/-- A text that lies between blanks, and has none at its own ends, is what trimming leaves. -/
theorem trim_blank_append_blank {b cs b' : List Char} (hb : Blank b) (hb' : Blank b')
    (h : Tight cs) : trim (b ++ (cs ++ b')) = cs := by
  rw [trim_blank_append hb, trim_append_blank hb', trim_eq_self h]

/-- Trimming the front of a text stays in its first part, if that is not blank. -/
theorem trimStart_append {cs : List Char} (h : trimStart cs ≠ []) (ds : List Char) :
    trimStart (cs ++ ds) = trimStart cs ++ ds := by
  have hne : (cs.dropWhile isBlank).isEmpty = false := by
    rw [Bool.eq_false_iff, Ne, List.isEmpty_iff]
    exact h
  rw [trimStart, List.dropWhile_append, hne]
  rfl

theorem trimEnd_eq_nil_iff {cs : List Char} : trimEnd cs = [] ↔ Blank cs := by
  obtain ⟨b, hb, e⟩ := exists_trimEnd_blank cs
  constructor
  · intro h
    rw [e, h]
    exact hb
  · intro h
    have := trimEnd_append_blank h []
    rwa [List.nil_append] at this

/-- Trimming the end of a text stays in its second part, if that is not blank. -/
theorem trimEnd_append (cs : List Char) {ds : List Char} (h : ¬Blank ds) :
    trimEnd (cs ++ ds) = cs ++ trimEnd ds := by
  obtain ⟨b, hb, e⟩ := exists_trimEnd_blank ds
  have hne : trimEnd ds ≠ [] := fun h' => h (trimEnd_eq_nil_iff.1 h')
  have hlast : ∀ c ∈ (cs ++ trimEnd ds).getLast?, isBlank c = false := by
    obtain ⟨l, hl⟩ := Option.isSome_iff_exists.1 (List.getLast?_isSome.2 hne)
    rw [List.getLast?_append, hl, Option.some_or, ← hl]
    exact getLast?_trimEnd ds
  calc trimEnd (cs ++ ds) = trimEnd ((cs ++ trimEnd ds) ++ b) := by rw [List.append_assoc, ← e]
    _ = trimEnd (cs ++ trimEnd ds) := trimEnd_append_blank hb _
    _ = cs ++ trimEnd ds := trimEnd_eq_self hlast

theorem tight_append {cs ds : List Char} (hc : cs ≠ []) (hd : ds ≠ [])
    (h : ∀ c ∈ cs.head?, isBlank c = false) (h' : ∀ c ∈ ds.getLast?, isBlank c = false) :
    Tight (cs ++ ds) := by
  obtain ⟨c, r, rfl⟩ := List.exists_cons_of_ne_nil hc
  refine ⟨by simpa using h, ?_⟩
  intro e he
  obtain ⟨d, hd'⟩ := List.getLast?_isSome.2 hd |> Option.isSome_iff_exists.1
  rw [List.getLast?_append, hd', Option.some_or] at he
  exact h' e (by rw [hd']; exact he)

/-! ## The end of a text -/

theorem getLast?_append_ne {x y : List Char} {c : Char} (hne : y ≠ []) (h : y.getLast? ≠ some c) :
    (x ++ y).getLast? ≠ some c := by
  obtain ⟨l, hl⟩ := Option.isSome_iff_exists.1 (List.getLast?_isSome.2 hne)
  rw [List.getLast?_append, hl, Option.some_or]
  rwa [hl] at h

theorem getLast?_intercalate_ne {t : List Char} {xs : List (List Char)} {c : Char} (hne : xs ≠ [])
    (h : ∀ x ∈ xs, x ≠ [] ∧ x.getLast? ≠ some c) :
    t.intercalate xs ≠ [] ∧ (t.intercalate xs).getLast? ≠ some c := by
  induction xs with
  | nil => exact absurd rfl hne
  | cons x xs ih =>
    obtain ⟨hx, hxs⟩ := List.forall_mem_cons.1 h
    cases xs with
    | nil =>
      rw [List.intercalate_singleton]
      exact hx
    | cons y ys =>
      obtain ⟨hne', hlast⟩ := ih (List.cons_ne_nil _ _) hxs
      rw [List.intercalate_cons_cons]
      exact ⟨fun e => hne' (List.append_eq_nil_iff.1 e).2, getLast?_append_ne hne' hlast⟩

/-! ## The characters that are no blanks -/

/-- The text without any blank. -/
def solid (cs : List Char) : List Char :=
  cs.filter (!isBlank ·)

theorem solid_append (cs ds : List Char) : solid (cs ++ ds) = solid cs ++ solid ds :=
  List.filter_append ..

theorem solid_eq_nil_iff {cs : List Char} : solid cs = [] ↔ Blank cs := by
  simp [solid, Blank, List.filter_eq_nil_iff]

theorem solid_trim (cs : List Char) : solid (trim cs) = solid cs := by
  obtain ⟨b, b', hb, hb', e⟩ := exists_blank_trim_blank cs
  have h := congrArg solid e
  rw [solid_append, solid_append, solid_eq_nil_iff.2 hb, solid_eq_nil_iff.2 hb', List.nil_append,
    List.append_nil] at h
  exact h.symm

theorem trim_eq_nil_iff {cs : List Char} : trim cs = [] ↔ Blank cs := by
  rw [← @solid_eq_nil_iff cs, ← solid_trim, solid_eq_nil_iff]
  refine ⟨fun h => by rw [h]; exact blank_nil, fun h => ?_⟩
  rw [← trim_eq_self (tight_trim cs), ← List.append_nil (trim cs), trim_blank_append h, trim_nil]

theorem trim_ne_nil_iff {cs : List Char} : trim cs ≠ [] ↔ ∃ c ∈ cs, isBlank c = false := by
  rw [Ne, trim_eq_nil_iff, Blank]
  simp

end TableQuery.Text

namespace TableQuery.Piece

open Text

theorem slice_of_eq {p : Piece} {u x w : List Char} (h : p.chars = u ++ (x ++ w)) {i j : Nat}
    (hi : i = u.length) (hj : j = u.length + x.length) : p.slice i j = x := by
  subst hi hj
  rw [slice, h, List.drop_left, Nat.add_sub_cancel_left, List.take_left]

/-- A range of a piece that holds the text `x` is cut to `x` without the blanks at its ends. -/
theorem cut_of_eq {p : Piece} {u x w : List Char} (h : p.chars = u ++ (x ++ w)) {i j : Nat}
    (hi : i = u.length) (hj : j = u.length + x.length) : (p.cut i j).chars = trim x := by
  rw [cut, slice_of_eq h hi hj]

theorem cut_front_of_eq {p : Piece} {u w : List Char} (h : p.chars = u ++ w) {j : Nat}
    (hj : j = u.length) : (p.cut 0 j).chars = trim u := by
  refine cut_of_eq (u := []) h rfl ?_
  rw [hj, List.length_nil, Nat.zero_add]

theorem rest_of_eq {p : Piece} {u x : List Char} (h : p.chars = u ++ x) {i : Nat}
    (hi : i = u.length) : (p.rest i).chars = trim x := by
  apply cut_of_eq (w := []) (by rw [List.append_nil, h]) hi
  rw [length, h, List.length_append]

theorem isEmpty_iff {p : Piece} : p.isEmpty = true ↔ p.chars = [] :=
  List.isEmpty_iff

end TableQuery.Piece
