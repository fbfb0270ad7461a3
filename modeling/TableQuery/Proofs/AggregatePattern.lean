import Mathlib.Data.List.Forall2
import TableQuery.Proofs.CharClass
import TableQuery.Proofs.Trim
import TableQuery.Select.Aggregate

/-!
# The pattern of an aggregate call

A call is looked for at every position of a field where a word can start, by dropping each name in
turn and skipping the blanks behind it. What is found can be said by cutting the field: something
that does not end in the middle of a word, one of the names in any case, blanks, and an opening
parenthesis (`called_iff_pattern`). A name is compared letter by letter, which is equality up to
simple case folding (`isLetter_iff`, `forall₂_isLetter_iff`).
-/

namespace TableQuery.Aggregate

open Text

/-! ## Calls at the front of a text -/

/-- The text spells a call up to its opening parenthesis: the name of an aggregate function in any
case, and blanks behind it. -/
def IsCall (w : List Char) : Prop :=
  ∃ name ∈ names, ∃ n g, List.Forall₂ (fun l c => isLetter l c = true) name.toList n ∧ Blank g ∧
    w = n ++ (g ++ ['('])

theorem dropName_eq_some_iff {name cs after : List Char} : dropName name cs = some after ↔
    ∃ n, List.Forall₂ (fun l c => isLetter l c = true) name n ∧ cs = n ++ after := by
  induction name generalizing cs with
  | nil =>
    rw [dropName, Option.some.injEq]
    constructor
    · rintro rfl
      exact ⟨[], .nil, rfl⟩
    · rintro ⟨n, hn, rfl⟩
      rw [List.forall₂_nil_left_iff.1 hn, List.nil_append]
  | cons l ls ih =>
    cases cs with
    | nil =>
      rw [dropName]
      refine iff_of_false nofun ?_
      rintro ⟨n, hn, e⟩
      obtain ⟨rfl, -⟩ := List.append_eq_nil_iff.1 e.symm
      cases hn
    | cons c cs =>
      rw [dropName, Option.ite_none_right_eq_some, ih]
      constructor
      · rintro ⟨hc, n, hn, rfl⟩
        exact ⟨c :: n, .cons hc hn, rfl⟩
      · rintro ⟨n, hn, e⟩
        cases hn with
        | cons hc hn =>
          obtain ⟨rfl, rfl⟩ := List.cons.inj e
          exact ⟨hc, _, hn, rfl⟩

theorem head?_trimStart_eq_iff {x : List Char} {c : Char} (hc : isBlank c = false) :
    (trimStart x).head? = some c ↔ ∃ g, Blank g ∧ g ++ [c] <+: x := by
  constructor
  · intro h
    obtain ⟨y, hy⟩ := List.head?_eq_some_iff.1 h
    refine ⟨x.takeWhile isBlank, blank_takeWhile x, y, ?_⟩
    rw [List.append_assoc, List.singleton_append, ← hy, trimStart, List.takeWhile_append_dropWhile]
  · rintro ⟨g, hg, y, rfl⟩
    rw [List.append_assoc, trimStart_blank_append hg,
      trimStart_eq_self (fun d hd => by cases hd; exact hc)]
    rfl

theorem callsName_iff {name x : List Char} : callsName name x = true ↔
    ∃ n g, List.Forall₂ (fun l c => isLetter l c = true) name n ∧ Blank g ∧
      n ++ (g ++ ['(']) <+: x := by
  have hopen : isBlank '(' = false := by decide
  unfold callsName
  constructor
  · intro h
    split at h
    · rename_i after ha
      obtain ⟨n, hn, rfl⟩ := dropName_eq_some_iff.1 ha
      obtain ⟨g, hg, hp⟩ := (head?_trimStart_eq_iff hopen).1 (beq_iff_eq.1 h)
      exact ⟨n, g, hn, hg, (List.prefix_append_right_inj n).2 hp⟩
    · cases h
  · rintro ⟨n, g, hn, hg, y, rfl⟩
    rw [List.append_assoc, dropName_eq_some_iff.2 ⟨n, hn, rfl⟩]
    exact beq_iff_eq.2 ((head?_trimStart_eq_iff hopen).2 ⟨g, hg, List.prefix_append _ _⟩)

/-- A call stands at the front of a text exactly if the text starts with a spelling of one. -/
theorem startsCall_iff {x : List Char} : startsCall x = true ↔ ∃ w, IsCall w ∧ w <+: x := by
  rw [startsCall, List.any_eq_true]
  simp only [callsName_iff]
  constructor
  · rintro ⟨name, hmem, n, g, hn, hg, hp⟩
    exact ⟨n ++ (g ++ ['(']), ⟨name, hmem, n, g, hn, hg, rfl⟩, hp⟩
  · rintro ⟨w, ⟨name, hmem, n, g, hn, hg, rfl⟩, hp⟩
    exact ⟨name, hmem, n, g, hn, hg, hp⟩

/-! ## Calls anywhere in a text -/

theorem isBoundary_iff {before : Option Char} :
    isBoundary before = true ↔ ∀ c ∈ before, isWordChar c = false := by
  cases before with
  | none => simp [isBoundary]
  | some c => simp [isBoundary]

/-- A call stands in a text exactly if the text can be cut in front of one where a word can
start. -/
theorem callsFrom_iff {b : Option Char} {x : List Char} : callsFrom b x = true ↔
    ∃ u w, u ++ w <+: x ∧ IsCall w ∧ ∀ c ∈ u.getLast?.or b, isWordChar c = false := by
  -- the induction walks over the positions of the text and keeps the character in front of each
  induction x generalizing b with
  | nil =>
    refine iff_of_false (by simp [callsFrom]) ?_
    rintro ⟨u, w, hp, ⟨-, -, n, g, -, -, rfl⟩, -⟩
    simp at hp
  | cons c r ih =>
    have hlast : ∀ u : List Char, (c :: u).getLast?.or b = u.getLast?.or (some c) := by
      intro u
      rw [List.getLast?_cons]
      cases u.getLast? <;> rfl
    rw [callsFrom, Bool.or_eq_true, Bool.and_eq_true, isBoundary_iff, startsCall_iff, ih]
    constructor
    · rintro (⟨hb, w, hw, hp⟩ | ⟨u, w, hp, hw, hb⟩)
      · exact ⟨[], w, hp, hw, hb⟩
      · refine ⟨c :: u, w, List.cons_prefix_cons.2 ⟨rfl, hp⟩, hw, ?_⟩
        rwa [hlast]
    · rintro ⟨u, w, hp, hw, hb⟩
      cases u with
      | nil => exact .inl ⟨hb, w, hw, hp⟩
      | cons d u =>
        obtain ⟨rfl, hr⟩ := List.cons_prefix_cons.1 hp
        rw [hlast] at hb
        exact .inr ⟨u, w, hr, hw, hb⟩

/-! ## Names in any case -/

/-- The character under simple case folding, as far as ASCII letters go: an upper-case ASCII letter
is folded to the lower-case one, and of all other characters only the long s and the Kelvin sign are
folded to an ASCII letter. -/
def caseFold (c : Char) : Char :=
  if c = 'ſ' then 's' else if c = '\u212A' then 'k' else c.toLower

theorem toLower_of_le {c : Char} (h : 128 ≤ c.toNat) : c.toLower = c := by
  delta Char.toLower
  split
  · rename_i hu
    simp only [UInt32.le_iff_toNat_le, ge_iff_le] at hu
    change 65 ≤ c.toNat ∧ c.toNat ≤ 90 at hu
    omega
  · rfl

/-- The letters of the names are compared up to case. -/
theorem isLetter_iff {name : String} (hname : name ∈ names) {l : Char} (hl : l ∈ name.toList)
    {c : Char} :
    isLetter l c = true ↔ caseFold c = caseFold l := by
  have hletters : ∀ name ∈ names, ∀ l ∈ name.toList, l.toNat < 128 ∧ (caseFold l).toNat < 128 ∧
      (isLetter l 'ſ' = true ↔ caseFold 'ſ' = caseFold l) ∧
      (isLetter l '\u212A' = true ↔ caseFold '\u212A' = caseFold l) ∧
      ∀ n < 128, isLetter l (Char.ofNat n) = true ↔ caseFold (Char.ofNat n) = caseFold l := by
    decide +kernel
  obtain ⟨hl, hfold, hlong, hkelvin, hascii⟩ := hletters name hname l hl
  by_cases hc : c.toNat < 128
  · exact of_ascii (P := fun c => isLetter l c = true ↔ caseFold c = caseFold l) hascii hc
  by_cases hs : c = 'ſ'
  · rw [hs, hlong]
  by_cases hk : c = '\u212A'
  · rw [hk, hkelvin]
  -- any other character beyond ASCII is neither a letter of a name nor folded to one
  have hupper : c.toUpper ≠ l := by
    rw [Spelling.toUpper_of_toNat (by omega)]
    rintro rfl
    exact hc hl
  have hlower : caseFold c ≠ caseFold l := by
    rw [caseFold, if_neg hs, if_neg hk, toLower_of_le (by omega)]
    intro e
    rw [e] at hc
    exact hc hfold
  refine iff_of_false ?_ hlower
  simp [isLetter, hupper, hs]

theorem forall₂_isLetter_iff {name : String} (hname : name ∈ names) {n : List Char} :
    List.Forall₂ (fun l c => isLetter l c = true) name.toList n ↔
      n.map caseFold = name.toList.map caseFold := by
  have hletters : ∀ l ∈ name.toList, ∀ c, isLetter l c = true ↔ caseFold c = caseFold l :=
    fun l hl c => isLetter_iff hname hl
  generalize name.toList = ls at hletters
  induction ls generalizing n with
  | nil => rw [List.forall₂_nil_left_iff, List.map_nil, List.map_eq_nil_iff]
  | cons l ls ih =>
    obtain ⟨hl, hls⟩ := List.forall_mem_cons.1 hletters
    rw [List.forall₂_cons_left_iff, List.map_cons, List.map_eq_cons_iff]
    constructor
    · rintro ⟨c, n, hc, hn, rfl⟩
      exact ⟨c, n, rfl, (hl c).1 hc, (ih hls).1 hn⟩
    · rintro ⟨c, n, rfl, hc, hn⟩
      exact ⟨c, n, (hl c).2 hc, (ih hls).2 hn, rfl⟩

/-- Some field calls an aggregate function exactly if it can be cut into something that does not end
within a word, the name of a function in any case, blanks, an opening parenthesis and whatever
follows. -/
theorem called_iff_pattern (fields : List String) : called fields = true ↔
    ∃ field ∈ fields, ∃ u n g z : List Char, field.toList = u ++ (n ++ (g ++ '(' :: z)) ∧
      (∃ name ∈ ["COUNT", "AVG", "SUM", "MIN", "MAX"], n.map caseFold = name.toList.map caseFold) ∧
      (∀ c ∈ g, isBlank c = true) ∧ (u = [] ∨ ∃ c ∈ u.getLast?, isWordChar c = false) := by
  have hbefore : ∀ u : List Char, (u = [] ∨ ∃ c ∈ u.getLast?, isWordChar c = false) ↔
      ∀ c ∈ u.getLast?.or none, isWordChar c = false := by
    intro u
    rw [Option.or_none]
    cases hu : u.getLast? with
    | none => simp [List.getLast?_eq_none_iff.1 hu]
    | some c =>
      have hne : u ≠ [] := by
        rintro rfl
        cases hu
      simp [hne]
  rw [called, List.any_eq_true]
  refine exists_congr fun field => and_congr_right fun _ => ?_
  rw [callsFrom_iff]
  constructor
  · rintro ⟨u, w, ⟨z, hz⟩, ⟨name, hname, n, g, hn, hg, rfl⟩, hb⟩
    refine ⟨u, n, g, z, ?_, ⟨name, hname, (forall₂_isLetter_iff hname).1 hn⟩, hg, (hbefore u).2 hb⟩
    rw [← hz]
    simp
  · rintro ⟨u, n, g, z, hz, ⟨name, hname, hn⟩, hg, hb⟩
    refine ⟨u, n ++ (g ++ ['(']), ⟨z, ?_⟩,
      ⟨name, hname, n, g, (forall₂_isLetter_iff hname).2 hn, hg, rfl⟩, (hbefore u).1 hb⟩
    rw [hz]
    simp

example : called ["COUNT COUNT", "1 + ſum\u2003(x)"] = true := by decide +kernel

example : called ["my_count(x)", "MINMAX(x)", "ésum(x)", "COUNT"] = false := by decide +kernel

end TableQuery.Aggregate
