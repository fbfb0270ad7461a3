import Mathlib.Data.Nat.Digits.Defs
import TableQuery.Proofs.Isolation

/-!
# Limits

A limit is read from left to right, while a numeral says its number from right to left: the last
digit counts ones, the one in front of it tens, and so on (`decimalValue`). Both give the same
number (`ofDigitChars_eq_decimalValue`), so that a text is read as a limit exactly if it is the
numeral of a number below 2^64, with any zeros in front, and everything else is refused as a whole
(`parse_iff_numeral`).
-/

namespace TableQuery.Limit

open Text

/-- The number that a text of digits says in base ten. -/
def decimalValue (cs : List Char) : Nat :=
  Nat.ofDigits 10 (cs.map fun c => c.toNat - '0'.toNat).reverse

/-- The text writes the number in ASCII digits, with any zeros in front. -/
structure Numeral (cs : List Char) (n : Nat) : Prop where
  ne_nil : cs ≠ []
  digits : ∀ c ∈ cs, '0' ≤ c ∧ c ≤ '9'
  value : decimalValue cs = n

instance (cs : List Char) (n : Nat) : Decidable (Numeral cs n) :=
  decidable_of_iff (cs ≠ [] ∧ (∀ c ∈ cs, '0' ≤ c ∧ c ≤ '9') ∧ decimalValue cs = n)
    ⟨fun h => ⟨h.1, h.2.1, h.2.2⟩, fun h => ⟨h.ne_nil, h.digits, h.value⟩⟩

theorem isDigit_iff {c : Char} : c.isDigit = true ↔ '0' ≤ c ∧ c ≤ '9' := by
  simp only [Char.isDigit, Bool.and_eq_true, decide_eq_true_iff, ge_iff_le]
  rfl

/-- Each further digit shifts what was read before it by one place. -/
theorem ofDigitChars_eq_decimalValue (cs : List Char) :
    Nat.ofDigitChars 10 cs 0 = decimalValue cs := by
  induction cs with
  | nil => rfl
  | cons c cs ih =>
    have hdigit : 10 * 0 + (c.toNat - '0'.toNat) = c.toNat - '0'.toNat := Nat.zero_add _
    calc Nat.ofDigitChars 10 (c :: cs) 0
        = 10 ^ cs.length * (c.toNat - '0'.toNat) + Nat.ofDigitChars 10 cs 0 := by
          rw [Nat.ofDigitChars_cons, hdigit, Nat.ofDigitChars_eq_ofDigitChars_zero]
      _ = decimalValue (c :: cs) := by
          rw [ih, decimalValue, decimalValue, List.map_cons, Nat.ofDigits_reverse_cons,
            List.length_map, Nat.add_comm]

theorem ofDigits?_eq_some_iff {cs : List Char} {n : UInt64} :
    ofDigits? cs = some n ↔ Numeral cs n.toNat := by
  have hform : (cs.isEmpty || !cs.all Char.isDigit) = false ↔
      cs ≠ [] ∧ ∀ c ∈ cs, '0' ≤ c ∧ c ≤ '9' := by
    simp [isDigit_iff]
  rw [ofDigits?, ofDigitChars_eq_decimalValue]
  constructor
  · intro h
    split at h
    · cases h
    · rename_i hc
      obtain ⟨hne, hdigits⟩ := hform.1 (Bool.eq_false_iff.2 hc)
      dsimp only at h
      split at h
      · cases h
        exact ⟨hne, hdigits, (UInt64.toNat_ofNatLT ..).symm⟩
      · cases h
  · rintro ⟨hne, hdigits, hvalue⟩
    have hlt : decimalValue cs < UInt64.size := hvalue ▸ n.toNat_lt_size
    rw [hform.2 ⟨hne, hdigits⟩, if_neg (by decide)]
    dsimp only
    rw [dif_pos hlt, Option.some.injEq, ← UInt64.toNat_inj, UInt64.toNat_ofNatLT, hvalue]

theorem parse_eq_ok_iff {body : Piece} {n : UInt64} :
    parse body = .ok n ↔ Numeral body.chars n.toNat := by
  rw [← ofDigits?_eq_some_iff, parse]
  cases ofDigits? body.chars with
  | none => exact iff_of_false nofun nofun
  | some k => rw [Except.ok.injEq, Option.some.injEq]

/-- What is not read is refused as a whole. -/
theorem parse_eq_error_iff {body : Piece} {e : ParseError} :
    parse body = .error e ↔ (∀ n, parse body ≠ .ok n) ∧ e = body.faultWhole .notLimit := by
  rw [parse]
  cases ofDigits? body.chars with
  | none =>
    constructor
    · intro h
      cases h
      exact ⟨nofun, rfl⟩
    · rintro ⟨-, rfl⟩
      rfl
  | some k =>
    refine iff_of_false nofun ?_
    rintro ⟨h, -⟩
    exact h k rfl

/-- A number that is written is read back. -/
theorem numeral_toDigits (n : Nat) : Numeral (Nat.toDigits 10 n) n where
  ne_nil := Nat.toDigits_ne_nil
  digits c hc := isDigit_iff.1 (Nat.isDigit_of_mem_toDigits (by decide) (by decide) hc)
  value := by rw [← ofDigitChars_eq_decimalValue, Nat.ofDigitChars_ten_toDigits]

theorem parse_toDigits {body : Piece} {n : UInt64} (h : body.chars = Nat.toDigits 10 n.toNat) :
    parse body = .ok n := by
  rw [parse_eq_ok_iff, h]
  exact numeral_toDigits n.toNat

/-- A limit is read exactly from the numerals of the numbers of 64 bits, everything else is refused
as a whole, and a number that is written out is read back. -/
theorem parse_iff_numeral (body : Piece) :
    (∀ n : Nat, (∃ k, parse body = .ok k ∧ k.toNat = n) ↔
      Numeral body.chars n ∧ n ≤ 18446744073709551615) ∧
    ((¬∃ n, Numeral body.chars n ∧ n ≤ 18446744073709551615) →
      ∃ e, parse body = .error e ∧ e.kind = .invalidLimit ∧ e.text = body.text ∧
        e.start = body.start ∧
        e.stop = body.start + body.text.utf8ByteSize) ∧
    ∀ n : UInt64, body.text = toString n → parse body = .ok n := by
  have hread : ∀ n : Nat, (∃ k, parse body = .ok k ∧ k.toNat = n) ↔
      Numeral body.chars n ∧ n ≤ 18446744073709551615 := by
    intro n
    constructor
    · rintro ⟨k, hk, rfl⟩
      exact ⟨parse_eq_ok_iff.1 hk, Nat.le_of_lt_succ k.toNat_lt_size⟩
    · rintro ⟨hn, hle⟩
      have hlt : n < UInt64.size := Nat.lt_succ_of_le hle
      refine ⟨UInt64.ofNatLT n hlt, parse_eq_ok_iff.2 ?_, UInt64.toNat_ofNatLT ..⟩
      rwa [UInt64.toNat_ofNatLT]
  refine ⟨hread, fun hnone => ?_, fun n hn => parse_toDigits ?_⟩
  · refine ⟨_, parse_eq_error_iff.2 ⟨fun k hk => hnone ⟨_, (hread _).1 ⟨k, hk, rfl⟩⟩, rfl⟩, ?_⟩
    refine ⟨rfl, Piece.faultWhole_text _ _, Piece.faultWhole_start _ _, ?_⟩
    rw [Piece.faultWhole_stop, Piece.text, utf8ByteSize_ofList]
  · have hchars : body.chars = (toString n).toList := by
      rw [← hn, Piece.text, String.toList_ofList]
    exact hchars.trans Nat.toList_repr

/-- The largest limit behind zeros, and the number behind it. -/
theorem parse_iff_numeral_largest :
    parse ⟨"00018446744073709551615".toList, 16⟩ = .ok 18446744073709551615 ∧
      (∃ e, parse ⟨"18446744073709551616".toList, 16⟩ = .error e ∧ e.kind = .invalidLimit ∧
        e.text = "18446744073709551616" ∧ e.start = 16 ∧ e.stop = 36) ∧
      parse ⟨"18446744073709551615".toList, 16⟩ = .ok 18446744073709551615 := by
  have hlargest : Numeral "00018446744073709551615".toList 18446744073709551615 := by decide +kernel
  have hnext : Numeral "18446744073709551616".toList 18446744073709551616 := by decide +kernel
  obtain ⟨hread, -, -⟩ := parse_iff_numeral ⟨"00018446744073709551615".toList, 16⟩
  obtain ⟨-, hrefused, -⟩ := parse_iff_numeral ⟨"18446744073709551616".toList, 16⟩
  obtain ⟨-, -, hback⟩ := parse_iff_numeral ⟨"18446744073709551615".toList, 16⟩
  refine ⟨?_, ?_, hback 18446744073709551615 (by decide +kernel)⟩
  · obtain ⟨k, hk, e⟩ := (hread _).2 ⟨hlargest, Nat.le_refl _⟩
    rw [hk, Except.ok.injEq]
    exact UInt64.toNat_inj.1 e
  · refine hrefused ?_
    rintro ⟨n, hn, hle⟩
    have hsame : n = 18446744073709551616 := hn.value.symm.trans hnext.value
    omega

end TableQuery.Limit
