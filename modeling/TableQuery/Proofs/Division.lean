import Mathlib.Data.List.Sort
import TableQuery.Proofs.Cut
import TableQuery.Proofs.Search

/-!
# Dividing a text at its separators

Lists and conditions are both read by cutting a text where separators stand, and trimming what is
between them. A `Division` is a text that has been cut, and it is `Exact` for a notion of separator
if it was cut at every separator of the text and nowhere else.

A notion of separator that satisfies four laws (`Separation`) divides every text in exactly one way
(`Separation.existsUnique_exact`). A walk over the text that finds the separators one by one finds
the marks of this division (`Division.Exact.filterMap_sites`), and the ranges between the marks, cut
out of a piece, are the parts, trimmed and with the byte at which they start
(`Piece.cutsFrom_marksFrom`).
-/

namespace TableQuery

open Text Outline

/-- A text that is cut into parts, with a separator between each two. -/
inductive Division where
  | last (part : List Char)
  | cons (part separator : List Char) (rest : Division)

namespace Division

/-- The text that is divided. -/
def chars : Division → List Char
  | last z => z
  | cons z k d => z ++ (k ++ d.chars)

def parts : Division → List (List Char)
  | last z => [z]
  | cons z _ d => z :: d.parts

def separators : Division → List (List Char)
  | last _ => []
  | cons _ k d => k :: d.separators

/-- The text is cut right behind `u`, and the separator there is `k`. -/
def SeparatorAt : Division → List Char → List Char → Prop
  | last _, _, _ => False
  | cons z k d, u, k' => (u = z ∧ k' = k) ∨ ∃ v, u = z ++ (k ++ v) ∧ d.SeparatorAt v k'

/-- The parts as trimmed pieces of a text that starts at the given byte. -/
def pieces (start : Nat) : Division → List Piece
  | last z => [Piece.trimmed ⟨z, start⟩]
  | cons z k d => Piece.trimmed ⟨z, start⟩ :: d.pieces (start + byteLength (z ++ k))

/-- The ranges of the separators when the text starts at character `i`. -/
def marksFrom (i : Nat) : Division → List (Nat × Nat)
  | last _ => []
  | cons z k d => (i + z.length, i + z.length + k.length) :: d.marksFrom (i + z.length + k.length)

/-- The text `x` is cut at all its separators and nowhere else, where `At x u k` says that the
separator `k` stands in `x` right behind `u`. -/
structure Exact (At : List Char → List Char → List Char → Prop) (x : List Char) (d : Division) :
    Prop where
  chars_eq : d.chars = x
  separatorAt_iff : ∀ u k, d.SeparatorAt u k ↔ At x u k

theorem separatorAt_behind {z k v k' : List Char} {d : Division} (hk : k ≠ []) :
    (cons z k d).SeparatorAt (z ++ (k ++ v)) k' ↔ d.SeparatorAt v k' := by
  constructor
  · rintro (⟨e, -⟩ | ⟨v', e, h⟩)
    · have hnil := List.append_right_eq_self.1 e
      exact absurd (List.append_eq_nil_iff.1 hnil).1 hk
    · rw [List.append_cancel_left_eq, List.append_cancel_left_eq] at e
      rwa [e]
  · exact fun h => .inr ⟨v, rfl, h⟩

/-- The first cut of a division is the first separator. -/
theorem length_le_of_separatorAt {z k u k' : List Char} {d : Division}
    (h : (cons z k d).SeparatorAt u k') : z.length ≤ u.length := by
  rcases h with ⟨rfl, -⟩ | ⟨v, rfl, -⟩
  · exact Nat.le_refl _
  · rw [List.length_append]
    exact Nat.le_add_right _ _

/-- A division is known by its text and by where it is cut. -/
theorem eq_of_separatorAt {d d' : Division} (hchars : d.chars = d'.chars)
    (hne : ∀ u k, d.SeparatorAt u k → k ≠ []) (h : ∀ u k, d.SeparatorAt u k ↔ d'.SeparatorAt u k) :
    d = d' := by
  induction d generalizing d' with
  | last z =>
    cases d' with
    | last z' => exact congrArg last hchars
    | cons z' k' r' => exact absurd ((h z' k').2 (.inl ⟨rfl, rfl⟩)) id
  | cons z k r ih =>
    cases d' with
    | last z' => exact absurd ((h z k).1 (.inl ⟨rfl, rfl⟩)) id
    | cons z' k' r' =>
      have hk : k ≠ [] := hne z k (.inl ⟨rfl, rfl⟩)
      obtain ⟨rfl, rfl⟩ : z = z' ∧ k = k' := by
        rcases (h z' k').2 (.inl ⟨rfl, rfl⟩) with ⟨rfl, rfl⟩ | ⟨v, e, -⟩
        · exact ⟨rfl, rfl⟩
        · have hle := length_le_of_separatorAt ((h z k).1 (.inl ⟨rfl, rfl⟩))
          have hpos := List.length_pos_of_ne_nil hk
          rw [e, List.length_append, List.length_append] at hle
          omega
      rw [chars, chars, List.append_cancel_left_eq, List.append_cancel_left_eq] at hchars
      have hrest : ∀ u k', r.SeparatorAt u k' ↔ r'.SeparatorAt u k' := by
        intro u k'
        rw [← separatorAt_behind (z := z) hk, h, separatorAt_behind hk]
      rw [ih hchars (fun u k' hu => hne _ k' ((separatorAt_behind hk).2 hu)) hrest]

theorem mem_marksFrom {d : Division} {i : Nat} {m : Nat × Nat} :
    m ∈ d.marksFrom i ↔ ∃ u k, d.SeparatorAt u k ∧ m = (i + u.length, i + u.length + k.length) := by
  induction d generalizing i with
  | last z =>
    constructor
    · intro h
      cases h
    · rintro ⟨u, k, h, -⟩
      exact absurd h id
  | cons z k r ih =>
    rw [marksFrom, List.mem_cons, ih]
    constructor
    · rintro (rfl | ⟨v, k', h, rfl⟩)
      · exact ⟨z, k, .inl ⟨rfl, rfl⟩, rfl⟩
      · refine ⟨z ++ (k ++ v), k', .inr ⟨v, rfl, h⟩, ?_⟩
        simp only [List.length_append, Nat.add_assoc]
    · rintro ⟨u, k', ⟨rfl, rfl⟩ | ⟨v, rfl, h⟩, rfl⟩
      · exact .inl rfl
      · refine .inr ⟨v, k', h, ?_⟩
        simp only [List.length_append, Nat.add_assoc]

/-- The marks stand from left to right. -/
theorem pairwise_marksFrom {d : Division} (hne : ∀ u k, d.SeparatorAt u k → k ≠ []) (i : Nat) :
    (d.marksFrom i).Pairwise fun m m' => m.1 < m'.1 := by
  induction d generalizing i with
  | last z => exact .nil
  | cons z k r ih =>
    have hk : k ≠ [] := hne z k (.inl ⟨rfl, rfl⟩)
    refine .cons (fun m hm => ?_) (ih (fun u k' hu => hne _ k' ((separatorAt_behind hk).2 hu)) _)
    obtain ⟨u, k', -, rfl⟩ := mem_marksFrom.1 hm
    have hpos := List.length_pos_of_ne_nil hk
    dsimp only
    omega

theorem chars_pieces (d : Division) (start : Nat) :
    (d.pieces start).map Piece.chars = d.parts.map trim := by
  induction d generalizing start with
  | last z => rfl
  | cons z k r ih =>
    rw [pieces, parts, List.map_cons, List.map_cons, ih]
    rfl

/-- No piece is empty exactly if each part holds more than blanks. -/
theorem forall_pieces_ne_nil {d : Division} {start : Nat} :
    (∀ p ∈ d.pieces start, p.chars ≠ []) ↔ ∀ z ∈ d.parts, ∃ c ∈ z, isBlank c = false := by
  rw [← List.forall_mem_map (f := Piece.chars) (P := (· ≠ [])), chars_pieces, List.forall_mem_map]
  exact forall₂_congr fun z _ => trim_ne_nil_iff

theorem parts_ne_nil (d : Division) : d.parts ≠ [] := by
  cases d <;> exact List.cons_ne_nil _ _

/-- Divisions with the same parts are both one part, or go on alike. -/
theorem cons_of_parts_eq {z k : List Char} {d d' : Division} (h : d'.parts = (cons z k d).parts) :
    ∃ k' r, d' = cons z k' r ∧ r.parts = d.parts := by
  cases d' with
  | last z' =>
    obtain ⟨-, hnil⟩ := List.cons.inj h
    exact absurd hnil.symm d.parts_ne_nil
  | cons z' k' r =>
    obtain ⟨rfl, hr⟩ := List.cons.inj h
    exact ⟨k', r, rfl, hr⟩

theorem last_of_parts_eq {z : List Char} {d' : Division} (h : d'.parts = (last z).parts) :
    d' = last z := by
  cases d' with
  | last z' =>
    obtain ⟨rfl, -⟩ := List.cons.inj h
    rfl
  | cons z' k' r =>
    obtain ⟨-, hnil⟩ := List.cons.inj h
    exact absurd hnil r.parts_ne_nil

theorem chars_ne_nil {d : Division} (h : ∀ z ∈ d.parts, ∃ c ∈ z, isBlank c = false) :
    d.chars ≠ [] := by
  have hne : ∀ z ∈ d.parts, z ≠ [] := by
    rintro z hz rfl
    obtain ⟨c, hc, -⟩ := h [] hz
    cases hc
  cases d with
  | last z => exact hne z List.mem_cons_self
  | cons z k d => exact List.append_ne_nil_of_left_ne_nil (hne z List.mem_cons_self) _

end Division

/-! ## Notions of separator -/

/-- Laws of separators: what stands behind a separator is divided as it would be on its own, and of
two separators the second starts behind the end of the first. -/
structure Separation (At : List Char → List Char → List Char → Prop) : Prop where
  /-- A separator is a part of the text. -/
  within : ∀ {x u k}, At x u k → k ≠ [] ∧ ∃ y, x = u ++ (k ++ y)
  single : ∀ {x u k k'}, At x u k → At x u k' → k = k'
  apart : ∀ {x u u' k k'}, At x u k → At x u' k' → u.length < u'.length →
    u.length + k.length ≤ u'.length
  behind : ∀ {u k y v k'}, At (u ++ (k ++ y)) u k →
    (At (u ++ (k ++ y)) (u ++ (k ++ v)) k' ↔ At y v k')

namespace Separation

variable {At : List Char → List Char → List Char → Prop}

theorem exact_last_iff {z : List Char} : (Division.last z).Exact At z ↔ ∀ u k, ¬At z u k := by
  constructor
  · exact fun h u k hk => (h.separatorAt_iff u k).2 hk
  · exact fun h => ⟨rfl, fun u k => ⟨fun hk => absurd hk id, fun hk => h u k hk⟩⟩

/-- A text is divided at its first separator, and then what stands behind it is. -/
theorem exact_cons_iff (hAt : Separation At) {z k : List Char} {d : Division} :
    (Division.cons z k d).Exact At (z ++ (k ++ d.chars)) ↔
      At (z ++ (k ++ d.chars)) z k ∧ (∀ u k', At (z ++ (k ++ d.chars)) u k' → z.length ≤ u.length) ∧
        d.Exact At d.chars := by
  constructor
  · intro h
    have hz := (h.separatorAt_iff z k).1 (.inl ⟨rfl, rfl⟩)
    refine ⟨hz, fun u k' hu => ?_, rfl, fun v k' => ?_⟩
    · exact Division.length_le_of_separatorAt ((h.separatorAt_iff u k').2 hu)
    · rw [← Division.separatorAt_behind (hAt.within hz).1, h.separatorAt_iff, hAt.behind hz]
  · rintro ⟨hz, hfirst, h⟩
    refine ⟨rfl, fun u k' => ⟨?_, fun hu => ?_⟩⟩
    · rintro (⟨rfl, rfl⟩ | ⟨v, rfl, hv⟩)
      · exact hz
      · exact (hAt.behind hz).2 ((h.separatorAt_iff v k').1 hv)
    · -- a separator further on stands behind the end of the first
      obtain ⟨-, y, e⟩ := hAt.within hu
      rcases Nat.lt_or_eq_of_le (hfirst u k' hu) with hlt | heq
      · have hle := hAt.apart hz hu hlt
        obtain ⟨v, rfl⟩ : ∃ v, u = z ++ (k ++ v) := by
          rw [← List.append_assoc] at e
          have hp := List.prefix_of_prefix_length_le (List.prefix_append (z ++ k) d.chars)
            (e ▸ List.prefix_append u (k' ++ y)) (by rw [List.length_append]; exact hle)
          obtain ⟨v, rfl⟩ := hp
          exact ⟨v, List.append_assoc _ _ _⟩
        exact .inr ⟨v, rfl, (h.separatorAt_iff v k').2 ((hAt.behind hz).1 hu)⟩
      · obtain ⟨rfl, -⟩ := List.append_inj e heq
        exact .inl ⟨rfl, hAt.single hu hz⟩

/-- Every text is divided at its separators in exactly one way. -/
theorem existsUnique_exact (hAt : Separation At) (x : List Char) :
    ∃! d : Division, d.Exact At x := by
  have hex : ∃ d : Division, d.Exact At x := by
    induction hn : x.length using Nat.strongRecOn generalizing x with
    | _ n ih =>
      by_cases h : ∃ u k, At x u k
      · obtain ⟨u, k, hu, hfirst⟩ := exists_least_front h
        obtain ⟨hk, y, rfl⟩ := hAt.within hu
        have hpos := List.length_pos_of_ne_nil hk
        rw [List.length_append, List.length_append] at hn
        obtain ⟨d, hd⟩ := ih y.length (by omega) y rfl
        obtain rfl := hd.chars_eq
        exact ⟨.cons u k d, hAt.exact_cons_iff.2 ⟨hu, hfirst, hd⟩⟩
      · exact ⟨.last x, exact_last_iff.2 fun u k hk => h ⟨u, k, hk⟩⟩
  obtain ⟨d, hd⟩ := hex
  refine ⟨d, hd, fun d' hd' => ?_⟩
  refine Division.eq_of_separatorAt (hd'.chars_eq.trans hd.chars_eq.symm) (fun u k hu => ?_)
    fun u k => ?_
  · exact (hAt.within ((hd'.separatorAt_iff u k).1 hu)).1
  · rw [hd'.separatorAt_iff, hd.separatorAt_iff]

end Separation

/-! ## Finding the separators -/

/-- A walk that meets exactly the separators of the text meets them in the order of the division. -/
theorem Division.Exact.filterMap_sites {At : List Char → List Char → List Char → Prop}
    (hAt : Separation At) {mark? : Site → Option (Nat × Nat)}
    (hindex : ∀ s m, mark? s = some m → m.1 = s.index) {x : List Char} {d : Division}
    (hd : d.Exact At x)
    (h : ∀ m, m ∈ (sitesFrom (.start 0 none) x).filterMap mark? ↔
      ∃ u k, At x u k ∧ m = (u.length, u.length + k.length)) :
    (sitesFrom (.start 0 none) x).filterMap mark? = d.marksFrom 0 := by
  have : Std.Irrefl fun m m' : Nat × Nat => m.1 < m'.1 := ⟨fun m => Nat.lt_irrefl m.1⟩
  have : Std.Antisymm fun m m' : Nat × Nat => m.1 < m'.1 :=
    ⟨fun m m' h h' => absurd h' (Nat.lt_asymm h)⟩
  have hsites :
      ((sitesFrom (.start 0 none) x).filterMap mark?).Pairwise fun m m' => m.1 < m'.1 := by
    rw [List.pairwise_filterMap]
    refine (pairwise_sitesFrom _ x).imp fun hlt m hm m' hm' => ?_
    rw [hindex _ m hm, hindex _ m' hm']
    exact hlt
  have hmarks : (d.marksFrom 0).Pairwise fun m m' => m.1 < m'.1 :=
    Division.pairwise_marksFrom (fun u k hu => (hAt.within ((hd.separatorAt_iff u k).1 hu)).1) 0
  refine hsites.eq_of_mem_iff hmarks fun m => ?_
  rw [h, Division.mem_marksFrom]
  simp only [hd.separatorAt_iff, Nat.zero_add]

/-! ## Cutting a piece -/

namespace Piece

theorem cutsFrom_marksFrom {p : Piece} {u : List Char} {d : Division} (h : p.chars = u ++ d.chars) :
    p.cutsFrom u.length (d.marksFrom u.length) = d.pieces (p.start + byteLength u) := by
  induction d generalizing u with
  | last z =>
    have hcut :=
      cut_eq_trimmed (p := p) (u := u) (x := z) (w := []) (by rw [h]; simp [Division.chars])
    have hlength : p.length = u.length + z.length := by
      rw [length, h, List.length_append, Division.chars]
    rw [Division.marksFrom, cutsFrom, hlength, hcut, Division.pieces]
  | cons z k d ih =>
    rw [Division.chars] at h
    have hrest := ih (u := u ++ (z ++ k)) (by rw [h]; simp)
    rw [List.length_append, List.length_append, ← Nat.add_assoc, byteLength_append,
      ← Nat.add_assoc] at hrest
    rw [Division.marksFrom, cutsFrom, cut_eq_trimmed h, hrest, Division.pieces]

end Piece

end TableQuery
