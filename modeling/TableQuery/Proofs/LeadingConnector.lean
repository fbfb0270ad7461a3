import TableQuery.Proofs.Condition
import TableQuery.Proofs.Connectors
import TableQuery.Proofs.SelectRendering

/-!
# Connectors without a condition in front of them

A connector is looked for behind a blank, and the body of a `WHERE` starts with none. So a connector
that starts the body is not seen as one: it stays in the field of the first condition
(`SelectQuery.leading_connector_kept`). Every other connector without a condition on each side is
refused: behind a connector a blank follows, so that a second connector is seen and the part between
the two is blank.
-/

namespace TableQuery

open Text Outline

theorem IsConnector.not_mem {k : List Char} (hk : IsConnector k) {c : Char}
    (hc : isBlank c = true) : c ∉ k := by
  intro hmem
  rw [hk.not_blank c hmem] at hc
  cases hc

/-- The text starts with a connector and a blank behind it. -/
def LedByConnector (x : List Char) : Prop :=
  ∃ k y, IsConnector k ∧ x = k ++ y ∧ ∃ c ∈ y.head?, isBlank c = true

theorem LedByConnector.mono {x y : List Char} (h : LedByConnector x) (hp : x <+: y) :
    LedByConnector y := by
  obtain ⟨k, z, hk, rfl, c, hc, hb⟩ := h
  obtain ⟨t, rfl⟩ := hp
  exact ⟨k, z ++ t, hk, List.append_assoc _ _ _, c, by rw [List.head?_append, hc]; rfl, hb⟩

/-- A connector is not led by one. -/
theorem LedByConnector.not_isConnector {x : List Char} (h : LedByConnector x) : ¬IsConnector x := by
  obtain ⟨k, y, -, rfl, c, hc, hb⟩ := h
  exact fun hx => hx.not_mem hb (List.mem_append_right k (List.mem_of_mem_head? hc))

/-- A word that is cut off in front of a character it does not have is in front of the cut. -/
theorem prefix_of_prefix_append {k u v : List Char} (h : k <+: u ++ v) (hv : ∀ c ∈ v.head?, c ∉ k) :
    k <+: u := by
  obtain ⟨t, e⟩ := h
  rcases List.append_eq_append_iff.1 e with ⟨a, rfl, -⟩ | ⟨a, rfl, rfl⟩
  · exact List.prefix_append k a
  · cases a with
    | nil => exact ⟨[], by rw [List.append_nil, List.append_nil]⟩
    | cons c a => exact absurd (List.mem_append_right u List.mem_cons_self) (hv c rfl)

namespace IsConnector

variable {k u v : List Char}

/-- A connector at the front of a text ends in front of the first blank. -/
theorem prefix_of_ends_blank (hk : IsConnector k) (h : k <+: u ++ v)
    (hu : ∃ c ∈ u.getLast?, isBlank c = true) : k <+: u := by
  obtain ⟨c, hc, hb⟩ := hu
  obtain ⟨w, rfl⟩ := List.getLast?_eq_some_iff.1 hc
  rw [List.append_assoc] at h
  refine (prefix_of_prefix_append h fun d hd => ?_).trans (List.prefix_append w [c])
  cases hd
  exact hk.not_mem hb

/-- Trimming the front of a tight text leaves the connector that starts it. -/
theorem prefix_trim (hk : IsConnector k) {x : List Char} (ht : Tight x) (hx : x = u ++ v)
    (h : k <+: u) :
    k <+: trim u := by
  obtain ⟨b, hb, e⟩ := exists_trim_blank ht hx
  rw [e] at h
  exact prefix_of_prefix_append h fun c hc => hk.not_mem (hb c (List.mem_of_mem_head? hc))

end IsConnector

/-! ## Parts behind a connector -/

theorem passes_of_plain {b : List Char} (h : Plain b) : Passes 0 b 0 := by
  obtain ⟨hclear, hd, -⟩ := h.advance (Place.clear_start 0 none)
  exact (passes_iff_advance (Place.fresh_start 0 none b)).2 ⟨hclear.terminated, hd⟩

/-- A part in front of the first connector of a text that starts with a blank is not led by a
connector. -/
theorem not_led_of_first {z w : List Char} (hb : ∀ c ∈ (z ++ w).head?, isBlank c = true)
    (hfirst : ∀ u k, ConnectorAt (z ++ w) u k → z.length ≤ u.length) :
    ¬LedByConnector (trim z) := by
  rintro ⟨k, y, hk, e, c, hc, hblank⟩
  obtain ⟨b, b', hleft, -, hz⟩ := exists_blank_trim_blank z
  rw [e] at hz
  have hne : b ≠ [] := by
    rintro rfl
    obtain ⟨d, k, rfl⟩ := List.exists_cons_of_ne_nil hk.ne_nil
    exact hk.not_mem (hb d (by rw [hz]; rfl)) List.mem_cons_self
  have hat : ConnectorAt (z ++ w) b k := by
    refine ⟨passes_of_plain (plain_of_blank hleft), ?_, hk, y ++ (b' ++ w), ?_, fun d hd => ?_⟩
    · obtain ⟨l, hl⟩ := Option.isSome_iff_exists.1 (List.getLast?_isSome.2 hne)
      exact ⟨l, hl, hleft l (List.mem_of_getLast? hl)⟩
    · rw [hz]
      simp
    · rw [List.head?_append, hc] at hd
      cases hd
      exact hblank
  have hle := hfirst b k hat
  have hpos := List.length_pos_of_ne_nil hk.ne_nil
  rw [hz] at hle
  simp only [List.length_append] at hle
  omega

/-- No part of a text that starts with a blank is led by a connector. -/
theorem Division.Exact.not_led {d : Division} (hd : d.Exact ConnectorAt d.chars)
    (hb : ∀ c ∈ d.chars.head?, isBlank c = true) : ∀ z ∈ d.parts, ¬LedByConnector (trim z) := by
  induction d with
  | last z =>
    rw [parts, List.forall_mem_singleton]
    refine not_led_of_first (w := []) (by rwa [List.append_nil]) fun u k hu => ?_
    rw [List.append_nil] at hu
    exact absurd hu (Separation.exact_last_iff.1 hd u k)
  | cons z k r ih =>
    obtain ⟨hz, hfirst, hr⟩ := separation_connectorAt.exact_cons_iff.1 hd
    refine List.forall_mem_cons.2 ⟨not_led_of_first hb hfirst, ih hr ?_⟩
    obtain ⟨-, -, -, y, e, hy⟩ := hz
    rw [List.append_cancel_left_eq, List.append_cancel_left_eq] at e
    rwa [e]

/-! ## The field of a condition -/

namespace Condition

/-- A connector that starts a text stands in front of the operator at which the text is split. -/
theorem prefix_of_splitAt {x u s k : List Char} {o : Operator} (hk : IsConnector k) (h : k <+: x)
    (hs : SplitAt x u s o) : k <+: u := by
  cases hs with
  | like hlike _ =>
    obtain ⟨-, hu, -, y, rfl, -⟩ := hlike
    exact hk.prefix_of_ends_blank h hu
  | symbol _ hsymbol _ =>
    obtain ⟨-, y, rfl, hs⟩ := hsymbol
    obtain ⟨hne, -, hsigns⟩ := hs.signs
    obtain ⟨r, rfl⟩ := hs.front
    refine prefix_of_prefix_append h fun c hc hmem => ?_
    rw [List.head?_append_of_ne_nil _ hne] at hc
    have hletter := hk.isUpper c hmem
    rw [(hsigns c (List.mem_of_mem_head? hc)).2] at hletter
    cases hletter

theorem prefix_of_parse {fragment : Piece} {c : Condition} (hs : Skimmed fragment.chars)
    (ht : Tight fragment.chars) (h : parse fragment = .ok c) :
    c.field.toList <+: fragment.chars := by
  obtain ⟨u, s, y, -, e, hfield, -⟩ := (parse_eq_ok_iff_splitAt hs).1 h
  obtain ⟨b, -, hu⟩ := exists_trim_blank ht e
  rw [hfield]
  exact ⟨b ++ (s ++ y), by rw [← List.append_assoc, ← hu, ← e]⟩

/-- The fragment starts the text `x`, and with any connector that does. Then the field of the
condition is led by a connector exactly if the text is, unless the field is the connector. -/
theorem led_field_iff {fragment : Piece} {c : Condition} {x : List Char}
    (hs : Skimmed fragment.chars) (ht : Tight fragment.chars) (h : parse fragment = .ok c)
    (hx : fragment.chars <+: x) (hk : ∀ k, IsConnector k → k <+: x → k <+: fragment.chars) :
    LedByConnector c.field.toList ↔ LedByConnector x ∧ ¬IsConnector c.field.toList := by
  obtain ⟨u, s, y, hsplit, e, hfield, -⟩ := (parse_eq_ok_iff_splitAt hs).1 h
  have hfront : c.field.toList <+: x := (prefix_of_parse hs ht h).trans hx
  rw [hfield] at hfront ⊢
  constructor
  · exact fun hled => ⟨hled.mono hfront, hled.not_isConnector⟩
  · rintro ⟨⟨k, z, hc, rfl, d, hd, hb⟩, hne⟩
    obtain ⟨r, hr⟩ :=
      hc.prefix_trim ht e (prefix_of_splitAt hc (hk k hc (List.prefix_append k z)) hsplit)
    rw [← hr] at hfront hne ⊢
    obtain ⟨t, rfl⟩ := (List.prefix_append_right_inj k).1 hfront
    refine ⟨k, r, hc, rfl, d, ?_, hb⟩
    cases r with
    | nil =>
      rw [List.append_nil] at hne
      exact absurd hc hne
    | cons c r => exact hd

end Condition

/-! ## The body of a `WHERE` -/

namespace Division

variable {d : Division} {x z : List Char} {zs : List (List Char)}

/-- A text starts with its first part, and with a connector only if the part does. -/
theorem Exact.prefix_head (hd : d.Exact ConnectorAt x) (hz : d.parts = z :: zs) :
    z <+: x ∧ ∀ k, IsConnector k → k <+: x → k <+: z := by
  obtain rfl := hd.chars_eq
  cases d with
  | last z' =>
    obtain ⟨rfl, -⟩ := List.cons.inj hz
    exact ⟨List.prefix_refl z', fun k _ h => h⟩
  | cons z' k' r =>
    obtain ⟨rfl, -⟩ := List.cons.inj hz
    obtain ⟨⟨-, hb, -⟩, -, -⟩ := separation_connectorAt.exact_cons_iff.1 hd
    exact ⟨List.prefix_append z' _, fun k hk h => hk.prefix_of_ends_blank h hb⟩

/-- No part but the first is led by a connector: a blank follows each separator. -/
theorem Exact.not_led_tail (hd : d.Exact ConnectorAt x) (hz : d.parts = z :: zs) :
    ∀ z ∈ zs, ¬LedByConnector (trim z) := by
  obtain rfl := hd.chars_eq
  cases d with
  | last z' =>
    obtain ⟨-, rfl⟩ := List.cons.inj hz
    exact List.forall_mem_nil _
  | cons z' k' r =>
    obtain ⟨-, rfl⟩ := List.cons.inj hz
    obtain ⟨⟨-, -, -, y, e, hy⟩, -, hr⟩ := separation_connectorAt.exact_cons_iff.1 hd
    rw [List.append_cancel_left_eq, List.append_cancel_left_eq] at e
    exact hr.not_led (by rwa [e])

end Division

/-- Of the conditions of a body only the first has a field that is led by a connector, exactly if
the body is led by one, unless the field is the connector. -/
theorem Where.led_of_parse {body : Piece} {cs : List Condition} (hb : Balanced body.chars)
    (ht : Tight body.chars) (h : parse body = .ok cs) : ∃ c rest, cs = c :: rest ∧
      (LedByConnector c.field.toList ↔ LedByConnector body.chars ∧ ¬IsConnector c.field.toList) ∧
      ∀ c' ∈ rest, ¬LedByConnector c'.field.toList := by
  obtain ⟨fs, hs, hfs⟩ := parse_eq_ok_iff.1 h
  obtain ⟨d, hd, -⟩ := separation_connectorAt.existsUnique_exact body.chars
  obtain ⟨-, -, e⟩ := (split_eq_ok_iff_exact (skimmed_iff.2 hb.terminated) hd).1 hs
  have hparts := balanced_of_split hs hb
  have hchars : fs.map Piece.chars = d.parts.map trim := by rw [e, Division.chars_pieces]
  obtain ⟨z, zs, hz⟩ := List.exists_cons_of_ne_nil d.parts_ne_nil
  rw [hz, List.map_cons] at hchars
  cases hfs with
  | nil => cases hchars
  | @cons f c fs rest hf hrest =>
    rw [List.map_cons, List.cons.injEq] at hchars
    obtain ⟨⟨hfb, hft⟩, hparts⟩ := List.forall_mem_cons.1 hparts
    obtain ⟨⟨w, hw⟩, hlead⟩ := hd.prefix_head hz
    obtain ⟨b, -, hzb⟩ := exists_trim_blank ht hw.symm
    refine ⟨c, rest, rfl, Condition.led_field_iff (skimmed_iff.2 hfb.terminated) hft hf ?_ ?_, ?_⟩
    · rw [hchars.1]
      exact ⟨b ++ w, by rw [← List.append_assoc, ← hzb, hw]⟩
    · rw [hchars.1]
      exact fun k hk h => hk.prefix_trim ht hw.symm (hlead k hk h)
    · intro c' hc' hled
      obtain ⟨f', hf', hparse⟩ := exists_of_forall₂ hrest c' hc'
      obtain ⟨hfb', hft'⟩ := hparts f' hf'
      obtain ⟨z', hz', e'⟩ := List.mem_map.1 (hchars.2 ▸ List.mem_map_of_mem hf')
      refine hd.not_led_tail hz z' hz' ?_
      rw [e']
      exact hled.mono (Condition.prefix_of_parse (skimmed_iff.2 hfb'.terminated) hft' hparse)

namespace SelectQuery

/-- In a `SELECT` that is read, a connector with no condition in front of it stays in the field of
the first condition, if the field goes on behind it. No other field is led by a connector, and
between the connectors that are seen no part is blank. -/
theorem leading_connector_kept (settings : Settings) (text : String) (q : SelectQuery)
    (h : ofText settings text = .ok q) :
    (whereBody? settings text = .ok none ∧ q.conditions = []) ∨
    ∃ body c cs, whereBody? settings text = .ok (some body) ∧ q.conditions = c :: cs ∧
      (LedByConnector c.field.toList ↔ LedByConnector body.chars ∧ ¬IsConnector c.field.toList) ∧
      (∀ c' ∈ cs, ¬LedByConnector c'.field.toList) ∧
      ∀ d : Division, d.Exact ConnectorAt body.chars →
        ∀ z ∈ d.parts, ∃ c ∈ z, isBlank c = false := by
  rcases conditions_of_ofText h with hnone | ⟨body, hbody, hbal, htight, hparse⟩
  · exact .inl hnone
  · obtain ⟨c, rest, e, hfirst, hrest⟩ := Where.led_of_parse hbal htight hparse
    refine .inr ⟨body, c, rest, hbody, e, hfirst, hrest, fun d hd => ?_⟩
    obtain ⟨fs, hs, -⟩ := Where.parse_eq_ok_iff.1 hparse
    exact ((Where.split_eq_ok_iff_exact (skimmed_iff.2 hbal.terminated) hd).1 hs).2.1

/-- What is read from a `SELECT` whose `WHERE` starts with a connector. -/
def danglingSample : SelectQuery where
  fields := ["a"]
  table := "t"
  join := none
  conditions := [⟨"AND b", .eq, "1"⟩]
  groupBy := none
  aggregatesAll := false
  orderBy := none
  limit := none
  distinct := false

theorem leading_connector_kept_dangling :
    ofText {} "SELECT a FROM t WHERE AND b = 1" = .ok danglingSample ∧
      ∃ body, whereBody? {} "SELECT a FROM t WHERE AND b = 1" = .ok (some body) ∧
        LedByConnector body.chars ∧ LedByConnector "AND b".toList := by
  have h : ofText {} "SELECT a FROM t WHERE AND b = 1" = .ok danglingSample := by decide +kernel
  have hled : LedByConnector "AND b".toList :=
    ⟨"AND".toList, " b".toList, by decide, by decide, ' ', rfl, rfl⟩
  rcases leading_connector_kept {} _ danglingSample h with ⟨-, hnone⟩ |
    ⟨body, c, cs, hbody, e, hfirst, -⟩
  · cases hnone
  · obtain ⟨rfl, -⟩ := List.cons.inj e
    exact ⟨h, body, hbody, (hfirst.1 hled).1, hled⟩

end SelectQuery

end TableQuery
