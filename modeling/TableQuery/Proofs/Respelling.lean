import TableQuery.Proofs.CharClass
import TableQuery.Proofs.SortKey
import TableQuery.QualifiedName
import TableQuery.Select.Aggregate
import TableQuery.Select.Limit

/-!
# Respelled texts

A `Respelling` replaces each character by one that differs from it at most in case or in the kind of
ASCII blank, and may move the text on in the input. No step that recognises something in a text sees
the difference: what is trimmed, unquoted, matched or taken apart is the respelled form of what it
was before.

The two respellings that matter are `Respelling.fold`, which brings a text into upper case with
spaces for blanks, and `Respelling.shift`, which changes no character.
-/

namespace TableQuery

open Text

/-- A change of case and of blanks that ASCII readers do not see, and a move by some bytes. -/
structure Respelling where
  char : Char → Char
  /-- The number of bytes by which a text is moved on. -/
  offset : Nat
  fold_char : ∀ c, foldChar (char c) = foldChar c

namespace Respelling

/-- Upper case, with a space for each ASCII blank. -/
def fold : Respelling where
  char := foldChar
  offset := 0
  fold_char := by
    intro c
    exact foldChar_invariant foldChar (by decide) c

/-- The same characters, `n` bytes further on. -/
def shift (n : Nat) : Respelling where
  char := id
  offset := n
  fold_char := fun _ => rfl

variable (g : Respelling)

/-! ## Characters -/

/-- What `foldChar` keeps is kept. -/
theorem keeps {α : Type} {f : Char → α} (h : ∀ c, f (foldChar c) = f c) (c : Char) :
    f (g.char c) = f c := by
  rw [← h, g.fold_char, h]

@[simp] theorem isBlank_char (c : Char) : isBlank (g.char c) = isBlank c :=
  g.keeps isBlank_foldChar c

theorem char_eq_iff {m : Char} (hm : Rigid m) {c : Char} : g.char c = m ↔ c = m := by
  constructor
  · intro h
    apply hm
    rw [← g.fold_char, h]
  · rintro rfl
    exact hm _ (g.fold_char _)

theorem char_of_rigid {m : Char} (hm : Rigid m) : g.char m = m :=
  (g.char_eq_iff hm).2 rfl

/-- The signs of a statement stay. -/
theorem char_eq_sign_iff {m : Char} (ha : m.isAlpha = false) (hb : isBlank m = false) {c : Char} :
    g.char c = m ↔ c = m :=
  g.char_eq_iff (rigid_of_not_isAlpha ha hb)

theorem char_sign {m : Char} (ha : m.isAlpha = false) (hb : isBlank m = false) : g.char m = m :=
  g.char_of_rigid (rigid_of_not_isAlpha ha hb)

@[simp] theorem isQuote_char (c : Char) : Literal.isQuote (g.char c) = Literal.isQuote c := by
  have hs := @g.char_eq_sign_iff '\'' (by decide) (by decide) c
  have hd := @g.char_eq_sign_iff '"' (by decide) (by decide) c
  rw [Bool.eq_iff_iff]
  simp only [Literal.isQuote, Bool.or_eq_true, beq_iff_eq, hs, hd]

theorem toUpper_char {c : Char} (h : isBlank c = false) : (g.char c).toUpper = c.toUpper := by
  have h' : isBlank (g.char c) = false := by rw [isBlank_char, h]
  rw [← foldChar_of_not_isBlank h', g.fold_char, foldChar_of_not_isBlank h]

theorem toUpper_char_eq_iff {w : Char} (hw : isBlank w = false) {c : Char} :
    (g.char c).toUpper = w ↔ c.toUpper = w := by
  cases hc : isBlank c with
  | false => rw [g.toUpper_char hc]
  | true =>
    have hc' : isBlank (g.char c) = true := by rw [isBlank_char, hc]
    -- A blank is its own upper case, and no blank is `w`.
    rw [Spelling.toUpper_of_isBlank hc, Spelling.toUpper_of_isBlank hc']
    constructor
    · intro e
      rw [e, hw] at hc'
      cases hc'
    · intro e
      rw [e, hw] at hc
      cases hc

/-! ## Trimming and size -/

theorem takeWhile_map {f : Char → Bool} (h : ∀ c, f (foldChar c) = f c) (cs : List Char) :
    (cs.map g.char).takeWhile f = (cs.takeWhile f).map g.char := by
  have e : f ∘ g.char = f := funext (g.keeps h)
  rw [List.takeWhile_map, e]

theorem dropWhile_map {f : Char → Bool} (h : ∀ c, f (foldChar c) = f c) (cs : List Char) :
    (cs.map g.char).dropWhile f = (cs.dropWhile f).map g.char := by
  have e : f ∘ g.char = f := funext (g.keeps h)
  rw [List.dropWhile_map, e]

theorem takeWhile_not_isBlank_map (cs : List Char) :
    (cs.map g.char).takeWhile (!isBlank ·) = (cs.takeWhile (!isBlank ·)).map g.char :=
  g.takeWhile_map (fun c => by rw [isBlank_foldChar]) cs

@[simp] theorem trimStart_map (cs : List Char) :
    trimStart (cs.map g.char) = (trimStart cs).map g.char :=
  g.dropWhile_map isBlank_foldChar cs

@[simp] theorem trimEnd_map (cs : List Char) :
    trimEnd (cs.map g.char) = (trimEnd cs).map g.char := by
  rw [trimEnd, ← List.map_reverse, g.dropWhile_map isBlank_foldChar, ← List.map_reverse, ← trimEnd]

@[simp] theorem trim_map (cs : List Char) : trim (cs.map g.char) = (trim cs).map g.char := by
  rw [trim, trimStart_map, trimEnd_map, ← trim]

@[simp] theorem byteLength_map (cs : List Char) : byteLength (cs.map g.char) = byteLength cs := by
  induction cs with
  | nil => rfl
  | cons c cs ih =>
    rw [List.map_cons, byteLength_cons, byteLength_cons, ih, g.keeps utf8Size_foldChar]

/-! ## Literals -/

theorem undouble_map {q : Char} (hq : Rigid q) (cs : List Char) :
    Literal.undouble q (cs.map g.char) = (Literal.undouble q cs).map g.char := by
  fun_induction Literal.undouble q cs with
  | case1 => rfl
  | case2 c => rfl
  | case3 c d r h ih =>
    simp only [List.map_cons, Literal.undouble, h, and_self, if_true, ih, g.char_of_rigid hq]
  | case4 c d r h ih =>
    simp only [List.map_cons, Literal.undouble, g.char_eq_iff hq, h, if_false]
    rw [← ih, List.map_cons]

theorem unquote_map (cs : List Char) :
    Literal.unquote (cs.map g.char) = (Literal.unquote cs).map g.char := by
  cases cs with
  | nil => rfl
  | cons q r =>
    rw [List.map_cons, Literal.unquote, Literal.unquote, isQuote_char]
    cases hq : Literal.isQuote q with
    | false => simp
    | true =>
      have hrigid := rigid_of_isQuote hq
      have hlast : (r.map g.char).getLast? = some (g.char q) ↔ r.getLast? = some q := by
        rw [List.getLast?_map, g.char_of_rigid hrigid]
        cases r.getLast? with
        | none => simp
        | some c => simp [g.char_eq_iff hrigid]
      simp only [hlast, true_and]
      split
      · rw [g.char_of_rigid hrigid, ← List.map_dropLast, g.undouble_map hrigid]
      · rfl

/-! ## Keywords -/

theorem dropWord_map {w : List Char} (hw : ∀ c ∈ w, isBlank c = false) (cs : List Char) :
    Spelling.dropWord w (cs.map g.char) = (Spelling.dropWord w cs).map (List.map g.char) := by
  fun_induction Spelling.dropWord w cs with
  | case1 cs => rfl
  | case2 => rfl
  | case3 ws c cs ih =>
    obtain ⟨hc, hws⟩ := List.forall_mem_cons.1 hw
    rw [List.map_cons, Spelling.dropWord, if_pos ((g.toUpper_char_eq_iff hc).2 rfl), ih hws]
  | case4 d ws c cs hne =>
    obtain ⟨hd, -⟩ := List.forall_mem_cons.1 hw
    rw [List.map_cons, Spelling.dropWord, if_neg (mt (g.toUpper_char_eq_iff hd).1 hne)]
    rfl

theorem dropGap_map (cs : List Char) :
    Spelling.dropGap (cs.map g.char) = (Spelling.dropGap cs).map (List.map g.char) := by
  cases cs with
  | nil => rfl
  | cons c cs =>
    rw [List.map_cons, Spelling.dropGap, Spelling.dropGap, isBlank_char,
      g.dropWhile_map isBlank_foldChar]
    split <;> rfl

theorem dropWords_map {ws : List (List Char)} (hw : ∀ w ∈ ws, ∀ c ∈ w, isBlank c = false)
    (cs : List Char) :
    Spelling.dropWords ws (cs.map g.char) = (Spelling.dropWords ws cs).map (List.map g.char) := by
  induction ws generalizing cs with
  | nil => rfl
  | cons w ws ih =>
    obtain ⟨hword, hws⟩ := List.forall_mem_cons.1 hw
    cases ws with
    | nil => exact g.dropWord_map hword cs
    | cons v ws =>
      rw [Spelling.dropWords, Spelling.dropWords, g.dropWord_map hword]
      cases Spelling.dropWord w cs with
      | none => rfl
      | some r =>
        simp only [Option.map_some, Option.bind_eq_bind, Option.bind_some, g.dropGap_map]
        cases Spelling.dropGap r with
        | none => rfl
        | some r' => exact ih hws r'

theorem allows_map (k : Keyword) (cs : List Char) :
    k.spelling.allows (cs.map g.char) = k.spelling.allows cs := by
  cases cs with
  | nil => rfl
  | cons c cs =>
    have hopen : (some '(' == some (g.char c)) = (some '(' == some c) := by
      rw [Bool.eq_iff_iff]
      simp only [Option.some_beq_some, beq_iff_eq]
      rw [eq_comm, g.char_eq_sign_iff (by decide) (by decide), eq_comm]
    rw [List.map_cons, Spelling.allows, Spelling.allows, isBlank_char]
    cases k <;> first | rfl | exact congrArg _ hopen

@[simp] theorem match?_map (k : Keyword) (cs : List Char) :
    k.match? (cs.map g.char) = k.match? cs := by
  have hw : ∀ w ∈ k.spelling.words, ∀ c ∈ w, isBlank c = false := by
    cases k <;> decide
  rw [Keyword.match?, Keyword.match?, Spelling.match?, Spelling.match?, g.dropWords_map hw]
  cases Spelling.dropWords k.spelling.words cs with
  | none => rfl
  | some after => simp only [Option.map_some, g.allows_map, List.length_map]

@[simp] theorem detect?_map (cs : List Char) :
    ClauseKind.detect? (cs.map g.char) = ClauseKind.detect? cs := by
  simp only [ClauseKind.detect?, match?_map]

theorem head?_map_eq_iff {m : Char} (ha : m.isAlpha = false) (hb : isBlank m = false)
    (cs : List Char) :
    (cs.map g.char).head? = some m ↔ cs.head? = some m := by
  rw [List.head?_map]
  cases cs.head? with
  | none => simp
  | some c => simp [g.char_eq_sign_iff ha hb]

@[simp] theorem operator_map (cs : List Char) :
    Operator.detect? (cs.map g.char) = Operator.detect? cs := by
  have sign : ∀ m ∈ ['!', '=', '<', '>'], m.isAlpha = false ∧ isBlank m = false := by decide
  cases cs with
  | nil => rfl
  | cons c r =>
    rw [List.map_cons, Operator.detect?_cons, Operator.detect?_cons]
    have hc : ∀ m ∈ ['!', '=', '<', '>'], (g.char c = m ↔ c = m) := fun m hm =>
      g.char_eq_sign_iff (sign m hm).1 (sign m hm).2
    have hr : ∀ m ∈ ['!', '=', '<', '>'], ((r.map g.char).head? = some m ↔ r.head? = some m) :=
      fun m hm =>
      g.head?_map_eq_iff (sign m hm).1 (sign m hm).2 r
    simp (disch := decide) only [hc, hr]

/-! ## Names -/

theorem dropQuote_map (cs : List Char) :
    QualifiedName.dropQuote (cs.map g.char) = (QualifiedName.dropQuote cs).map g.char := by
  cases cs with
  | nil => rfl
  | cons c r =>
    by_cases hc : c = '"'
    · subst hc
      rw [List.map_cons, g.char_sign (by decide) (by decide)]
      rfl
    · have hc' : g.char c ≠ '"' := mt (g.char_eq_sign_iff (by decide) (by decide)).1 hc
      simp [QualifiedName.dropQuote, hc, hc']

theorem identifier?_map (cs : List Char) : QualifiedName.identifier? (cs.map g.char) =
    (QualifiedName.identifier? cs).map (Prod.map (List.map g.char) (List.map g.char)) := by
  cases cs with
  | nil => rfl
  | cons c r =>
    unfold QualifiedName.identifier?
    rw [g.takeWhile_map isAsciiNameChar_foldChar, g.dropWhile_map isAsciiNameChar_foldChar]
    simp only [List.map_cons, g.keeps isAsciiNameStart_foldChar]
    split <;> rfl

theorem name?_map (cs : List Char) : QualifiedName.name? (cs.map g.char) =
    (QualifiedName.name? cs).map (Prod.map (List.map g.char) (List.map g.char)) := by
  cases cs with
  | nil => rfl
  | cons c r =>
    by_cases hc : c = '*'
    · subst hc
      rw [List.map_cons, g.char_sign (by decide) (by decide)]
      simp [QualifiedName.name?, g.char_sign (m := '*') (by decide) (by decide)]
    · have hc' : g.char c ≠ '*' := mt (g.char_eq_sign_iff (by decide) (by decide)).1 hc
      have e := g.identifier?_map (c :: r)
      rw [List.map_cons] at e
      simp [QualifiedName.name?, hc, hc', e]

/-- The two parts respelled. -/
def name (n : QualifiedName) : QualifiedName :=
  ⟨n.qualifier.map g.char, n.name.map g.char⟩

theorem parse?_map (cs : List Char) :
    QualifiedName.parse? (cs.map g.char) = (QualifiedName.parse? cs).map g.name := by
  unfold QualifiedName.parse?
  rw [g.dropQuote_map, g.identifier?_map]
  cases QualifiedName.identifier? (QualifiedName.dropQuote cs) with
  | none => rfl
  | some x =>
    obtain ⟨qualifier, r⟩ := x
    simp only [Option.map_some, Prod.map, Option.bind_eq_bind, Option.bind_some, g.dropQuote_map,
      g.trimStart_map]
    cases trimStart (QualifiedName.dropQuote r) with
    | nil => rfl
    | cons c s =>
      by_cases hc : c = '.'
      · subst hc
        rw [List.map_cons, g.char_sign (by decide) (by decide)]
        simp only [g.trimStart_map, g.dropQuote_map, g.name?_map]
        cases QualifiedName.name? (QualifiedName.dropQuote (trimStart s)) with
        | none => rfl
        | some y =>
          simp only [Option.map_some, Prod.map, Option.bind_some, g.dropQuote_map, List.isEmpty_map]
          split <;> rfl
      · have hc' : g.char c ≠ '.' := mt (g.char_eq_sign_iff (by decide) (by decide)).1 hc
        simp [hc, hc']

@[simp] theorem columnName_map (cs : List Char) :
    columnName (cs.map g.char) = (columnName cs).map g.char := by
  rw [columnName, columnName, g.parse?_map]
  cases QualifiedName.parse? cs with
  | none => exact g.unquote_map cs
  | some n => rfl

@[simp] theorem tableName_map (cs : List Char) :
    tableName (cs.map g.char) = (tableName cs).map g.char := by
  rw [tableName, tableName, g.parse?_map]
  cases QualifiedName.parse? cs with
  | none => exact g.unquote_map cs
  | some n =>
    simp only [Option.map_some, QualifiedName.chars, name, List.map_append, List.map_cons,
      g.char_sign (m := '.') (by decide) (by decide)]

/-! ## Aggregates -/

theorem isLetter_char {l : Char} (hl : isBlank l = false) (c : Char) :
    Aggregate.isLetter l (g.char c) = Aggregate.isLetter l c := by
  have hs := @g.char_eq_sign_iff 'ſ' (by decide) (by decide) c
  rw [Bool.eq_iff_iff]
  simp only [Aggregate.isLetter, Bool.or_eq_true, Bool.and_eq_true, beq_iff_eq,
    g.toUpper_char_eq_iff hl, hs]

theorem dropName_map {ls : List Char} (hl : ∀ l ∈ ls, isBlank l = false) (cs : List Char) :
    Aggregate.dropName ls (cs.map g.char) = (Aggregate.dropName ls cs).map (List.map g.char) := by
  fun_induction Aggregate.dropName ls cs with
  | case1 cs => rfl
  | case2 => rfl
  | case3 l ls c cs h ih =>
    obtain ⟨hc, hls⟩ := List.forall_mem_cons.1 hl
    rw [List.map_cons, Aggregate.dropName, g.isLetter_char hc, if_pos h, ih hls]
  | case4 l ls c cs h =>
    obtain ⟨hc, -⟩ := List.forall_mem_cons.1 hl
    rw [List.map_cons, Aggregate.dropName, g.isLetter_char hc, if_neg h]
    rfl

theorem callsName_map {name : List Char} (hn : ∀ l ∈ name, isBlank l = false) (cs : List Char) :
    Aggregate.callsName name (cs.map g.char) = Aggregate.callsName name cs := by
  rw [Aggregate.callsName, Aggregate.callsName, g.dropName_map hn]
  cases Aggregate.dropName name cs with
  | none => rfl
  | some after =>
    rw [Bool.eq_iff_iff]
    simp only [Option.map_some, g.trimStart_map, beq_iff_eq]
    exact g.head?_map_eq_iff (by decide) (by decide) _

theorem startsCall_map (cs : List Char) :
    Aggregate.startsCall (cs.map g.char) = Aggregate.startsCall cs := by
  have hn : ∀ name ∈ Aggregate.names, ∀ l ∈ name.toList, isBlank l = false := by decide
  rw [Aggregate.startsCall, Aggregate.startsCall, Bool.eq_iff_iff]
  simp only [List.any_eq_true]
  constructor
  · rintro ⟨name, hname, h⟩
    exact ⟨name, hname, by rwa [g.callsName_map (hn name hname)] at h⟩
  · rintro ⟨name, hname, h⟩
    exact ⟨name, hname, by rwa [g.callsName_map (hn name hname)]⟩

theorem callsFrom_map (before : Option Char) (cs : List Char) :
    Aggregate.callsFrom (before.map g.char) (cs.map g.char) = Aggregate.callsFrom before cs := by
  have hb : ∀ before : Option Char, Aggregate.isBoundary (before.map g.char) =
      Aggregate.isBoundary before := by
    intro before
    cases before with
    | none => rfl
    | some c => simp [Aggregate.isBoundary, g.keeps isWordChar_foldChar]
  induction cs generalizing before with
  | nil => rfl
  | cons c r ih =>
    have hs := g.startsCall_map (c :: r)
    rw [List.map_cons] at hs
    rw [List.map_cons, Aggregate.callsFrom, Aggregate.callsFrom, hb, hs]
    exact congrArg _ (ih (some c))

@[simp] theorem called_map (fields : List String) :
    Aggregate.called (fields.map (String.map g.char)) = Aggregate.called fields := by
  have h : ∀ field : String, Aggregate.callsFrom none (field.map g.char).toList =
      Aggregate.callsFrom none field.toList := by
    intro field
    rw [String.toList_map]
    exact g.callsFrom_map none field.toList
  simp only [Aggregate.called, List.any_map, Function.comp_def, h]

/-! ## Directions and limits -/

theorem lastWord?_map (cs : List Char) : SortKey.lastWord? (cs.map g.char) =
    (SortKey.lastWord? cs).map (Prod.map (List.map g.char) (List.map g.char)) := by
  have hb : ∀ c, (!isBlank (foldChar c)) = !isBlank c := fun c => by rw [isBlank_foldChar]
  unfold SortKey.lastWord?
  rw [← List.map_reverse, g.takeWhile_not_isBlank_map, g.dropWhile_map hb]
  cases cs.reverse.dropWhile (!isBlank ·) with
  | nil => rfl
  | cons c front => simp

theorem ofWord?_map {word : List Char} (hw : ∀ c ∈ word, isBlank c = false) :
    Direction.ofWord? (word.map g.char) = Direction.ofWord? word := by
  have e : (word.map g.char).map Char.toUpper = word.map Char.toUpper := by
    rw [List.map_map]
    exact List.map_congr_left fun c hc => g.toUpper_char (hw c hc)
  rw [Direction.ofWord?, Direction.ofWord?, e]

theorem divide_map (cs : List Char) :
    SortKey.divide (cs.map g.char) = ((SortKey.divide cs).1.map g.char, (SortKey.divide cs).2) := by
  unfold SortKey.divide
  rw [g.lastWord?_map]
  cases h : SortKey.lastWord? cs with
  | none => rfl
  | some x =>
    obtain ⟨front, word⟩ := x
    simp only [Option.map_some, Prod.map, g.ofWord?_map (SortKey.isBlank_of_lastWord? h)]
    cases Direction.ofWord? word with
    | none => rfl
    | some d => rw [g.trimEnd_map]

theorem ofDigits?_map (cs : List Char) : Limit.ofDigits? (cs.map g.char) = Limit.ofDigits? cs := by
  have hall : (cs.map g.char).all Char.isDigit = cs.all Char.isDigit := by
    have e : Char.isDigit ∘ g.char = Char.isDigit := funext (g.keeps isDigit_foldChar)
    rw [List.all_map, e]
  rw [Limit.ofDigits?, Limit.ofDigits?, List.isEmpty_map, hall]
  split
  · rfl
  · rename_i h
    simp only [Bool.or_eq_true, Bool.not_eq_true', not_or, Bool.not_eq_false, List.all_eq_true] at h
    have e : cs.map g.char = cs := by
      conv_rhs => rw [← List.map_id cs]
      exact List.map_congr_left fun c hc => g.char_of_rigid (rigid_of_isDigit (h.2 c hc))
    rw [e]

end Respelling

end TableQuery
