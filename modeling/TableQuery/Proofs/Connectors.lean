import TableQuery.Proofs.Division
import TableQuery.Proofs.ErrorKinds
import TableQuery.Proofs.Relocation

/-!
# Where a `WHERE` is divided

The body of a `WHERE` is divided at its connectors: `AND` and `OR` in any case, outside literals and
parentheses, between blanks or at the end (`ConnectorAt`). A parenthesis that closes none is passed
over here, so that parentheses are counted by `Passes` and not by `Scanned`.

A body whose literals end is read exactly if it is not empty and no part is blank, and the
conditions are then read from the parts. Which connector stands between two parts is forgotten:
behind a connector a blank follows, and in front of it a blank stands, so that whether a part holds
a connector does not depend on the connectors around it (`connectorAt_front_iff`). Other connectors
between the same parts divide the new body at the same parts, and the same conditions are read
(`Where.split_at_connectors`).
-/

namespace TableQuery

open Text Outline

/-! ## Counting parentheses -/

/-- Reading the text inside `depth` parentheses, every literal ends, and the text ends inside the
second number of parentheses. A parenthesis that closes none is passed over. -/
inductive Passes : Nat → List Char → Nat → Prop
  | nil {depth : Nat} : Passes depth [] depth
  | literal {depth last : Nat} {q : Char} {r : List Char} {n : Nat} : Literal.isQuote q = true →
      Literal.closing? q r = some n → Passes depth (r.drop n) last → Passes depth (q :: r) last
  | opening {depth last : Nat} {r : List Char} :
      Passes (depth + 1) r last → Passes depth ('(' :: r) last
  | closing {depth last : Nat} {r : List Char} :
      Passes (depth - 1) r last → Passes depth (')' :: r) last
  | other {depth last : Nat} {c : Char} {r : List Char} :
      Literal.isQuote c = false → c ≠ '(' → c ≠ ')' →
      Passes depth r last → Passes depth (c :: r) last

/-- The walk over a text that ends its literals counts parentheses in this way. -/
theorem passes_of_advance {p : Place} {x : List Char} (hp : p.Fresh x)
    (h : (p.advance x).unterminated? = none) : Passes p.depth x (p.advance x).depth := by
  induction hn : x.length using Nat.strongRecOn generalizing p x with
  | _ n ih =>
    cases x with
    | nil => exact .nil
    | cons c r =>
      rw [List.length_cons] at hn
      cases hc : Literal.isQuote c with
      | true =>
        cases hcl : Literal.closing? c r with
        | none => exact absurd h (hp.unterminated hc hcl)
        | some m =>
          obtain ⟨p', hf, hd, hr, -⟩ := hp.jump hc hcl
          rw [hr] at h ⊢
          have hrest := ih _ (by rw [List.length_drop]; omega) hf h rfl
          rw [hd] at hrest
          exact .literal hc hcl hrest
      | false =>
        rw [Place.advance_cons, hp.next] at h ⊢
        have hrest :=
          ih r.length (by omega) (Place.fresh_of_outside (Place.pass_quoting p hc) r) h rfl
        by_cases hl : c = '('
        · subst hl
          exact .opening hrest
        · by_cases hr : c = ')'
          · subst hr
            exact .closing hrest
          · have hd : (p.pass c).depth = p.depth := by
              simp only [Place.pass, if_neg hl, if_neg hr]
            rw [hd] at hrest
            exact .other hc hl hr hrest

theorem Passes.advance {d e : Nat} {x : List Char} (h : Passes d x e) {p : Place} (hp : p.Fresh x)
    (hd : p.depth = d) : (p.advance x).unterminated? = none ∧ (p.advance x).depth = e := by
  induction h generalizing p with
  | nil => exact ⟨hp.clear.terminated, hd⟩
  | literal hq hn _ ih =>
    obtain ⟨p', hf, hd', hr, -⟩ := hp.jump hq hn
    rw [hr]
    exact ih hf (hd'.trans hd)
  | opening _ ih =>
    rw [Place.advance_cons, hp.next]
    exact ih (Place.fresh_of_outside (Place.pass_quoting p rfl) _) (congrArg (· + 1) hd)
  | closing _ ih =>
    rw [Place.advance_cons, hp.next]
    exact ih (Place.fresh_of_outside (Place.pass_quoting p rfl) _) (congrArg (· - 1) hd)
  | other hc hl hr _ ih =>
    rw [Place.advance_cons, hp.next]
    refine ih (Place.fresh_of_outside (Place.pass_quoting p hc) _) ?_
    simp only [Place.pass, if_neg hl, if_neg hr, hd]

theorem passes_iff_advance {p : Place} {x : List Char} (hp : p.Fresh x) {e : Nat} :
    Passes p.depth x e ↔ (p.advance x).unterminated? = none ∧ (p.advance x).depth = e := by
  constructor
  · exact fun h => h.advance hp rfl
  · rintro ⟨ht, rfl⟩
    exact passes_of_advance hp ht

theorem skimmed_iff_passes {x : List Char} : Skimmed x ↔ ∃ e, Passes 0 x e := by
  have hp := Place.fresh_start 0 none x
  rw [skimmed_iff]
  exact ⟨fun h => ⟨_, passes_of_advance hp h⟩, fun ⟨e, h⟩ => (h.advance hp rfl).1⟩

/-- Behind a text outside parentheses and plain characters, a text is read as it is on its own. -/
theorem Passes.behind_plain_iff {u m v : List Char} {e : Nat} (hu : Passes 0 u 0) (hm : Plain m)
    (hne : m ≠ []) : Passes 0 (u ++ (m ++ v)) e ↔ Passes 0 v e := by
  obtain ⟨ht, hd⟩ := hu.advance (Place.fresh_start 0 none u) rfl
  obtain ⟨-, hd', hq⟩ := hm.advance (Place.clear_advance (Place.clear_start 0 none) ht)
  have hv := passes_iff_advance (e := e) (Place.fresh_of_outside (hq hne) v)
  have hw := passes_iff_advance (e := e) (Place.fresh_start 0 none (u ++ (m ++ v)))
  rw [hd', hd] at hv
  rw [Place.advance_append, Place.advance_append] at hw
  exact hw.trans hv.symm

/-! ## Connectors -/

/-- The word is `AND` or `OR`, in any case. -/
def IsConnector (k : List Char) : Prop :=
  k.map Char.toUpper = ['A', 'N', 'D'] ∨ k.map Char.toUpper = ['O', 'R']

instance (k : List Char) : Decidable (IsConnector k) :=
  inferInstanceAs (Decidable (_ ∨ _))

/-- The separator `k` of the text `x` right behind `u` is a connector outside literals and
parentheses, behind a blank, and in front of a blank or at the end. -/
def ConnectorAt (x u k : List Char) : Prop :=
  Passes 0 u 0 ∧ (∃ c ∈ u.getLast?, isBlank c = true) ∧ IsConnector k ∧
    ∃ y, x = u ++ (k ++ y) ∧ ∀ c ∈ y.head?, isBlank c = true

namespace IsConnector

variable {k : List Char}

theorem ne_nil (h : IsConnector k) : k ≠ [] := by
  rintro rfl
  exact absurd h (by decide)

theorem isUpper (h : IsConnector k) : ∀ c ∈ k, c.toUpper.isUpper = true := by
  intro c hc
  have hmem := List.mem_map_of_mem (f := Char.toUpper) hc
  have hand : ∀ d ∈ ['A', 'N', 'D'], d.isUpper = true := by decide
  have hor : ∀ d ∈ ['O', 'R'], d.isUpper = true := by decide
  rcases h with h | h <;> rw [h] at hmem
  · exact hand _ hmem
  · exact hor _ hmem

theorem plain (h : IsConnector k) : Plain k :=
  fun c hc => Spelling.plain_of_toUpper (h.isUpper c hc)

theorem not_blank (h : IsConnector k) : ∀ c ∈ k, isBlank c = false :=
  fun c hc => Spelling.not_isBlank_of_isUpper (h.isUpper c hc)

/-- No stretch of a connector ends in a blank. -/
theorem not_ends_blank (h : IsConnector k) {a b : List Char} (e : k = a ++ b) :
    ¬∃ c ∈ a.getLast?, isBlank c = true := by
  rintro ⟨c, hc, hb⟩
  rw [h.not_blank c (by rw [e]; exact List.mem_append_left _ (List.mem_of_getLast? hc))] at hb
  cases hb

end IsConnector

/-- A connector ends where the first blank follows. -/
theorem connector_eq_of_append_eq {k k' y y' : List Char} (hk : IsConnector k)
    (hk' : IsConnector k') (hy : ∀ c ∈ y.head?, isBlank c = true)
    (hy' : ∀ c ∈ y'.head?, isBlank c = true) (e : k ++ y = k' ++ y') : k = k' := by
  have hword : ∀ {k y : List Char}, IsConnector k → (∀ c ∈ y.head?, isBlank c = true) →
      (k ++ y).takeWhile (!isBlank ·) = k := by
    intro k y hk hy
    rw [List.takeWhile_append_of_pos fun c hc => by rw [hk.not_blank c hc]; rfl]
    cases y with
    | nil => exact List.append_nil k
    | cons c y => rw [List.takeWhile_cons_of_neg (by simp [hy c rfl]), List.append_nil]
  rw [← hword hk hy, e, hword hk' hy']

/-- Of two texts with the same front, the longer one goes on with what follows the shorter. -/
theorem exists_of_append_eq {u x z y : List Char} (e : u ++ x = z ++ y)
    (hlt : u.length < z.length) :
    ∃ a, a ≠ [] ∧ z = u ++ a ∧ x = a ++ y := by
  rcases List.append_eq_append_iff.1 e with ⟨a, rfl, rfl⟩ | ⟨a, rfl, -⟩
  · refine ⟨a, ?_, rfl, rfl⟩
    rintro rfl
    simp at hlt
  · rw [List.length_append] at hlt
    omega

/-- A stretch of a text that ends in a blank has the connectors that it has on its own, whatever
follows. -/
theorem connectorAt_front_iff {z w u k : List Char} (hz : ∃ c ∈ z.getLast?, isBlank c = true)
    (hlt : u.length < z.length) : ConnectorAt (z ++ w) u k ↔ ConnectorAt z u k := by
  constructor
  · rintro ⟨hu, hb, hk, y, e, hy⟩
    obtain ⟨a, hne, rfl, e'⟩ := exists_of_append_eq e.symm hlt
    rw [List.getLast?_append_of_ne_nil _ hne] at hz
    refine ⟨hu, hb, hk, ?_⟩
    rcases List.append_eq_append_iff.1 e' with ⟨b, rfl, rfl⟩ | ⟨b, hkb, -⟩
    · refine ⟨b, rfl, fun c hc => hy c ?_⟩
      rw [List.head?_append, hc]
      rfl
    · exact absurd hz (hk.not_ends_blank hkb)
  · rintro ⟨hu, hb, hk, y, rfl, hy⟩
    have hyne : y ≠ [] := by
      rintro rfl
      rw [List.append_nil, List.getLast?_append_of_ne_nil _ hk.ne_nil] at hz
      exact hk.not_ends_blank (List.append_nil k).symm hz
    refine ⟨hu, hb, hk, y ++ w, by simp only [List.append_assoc], ?_⟩
    rwa [List.head?_append_of_ne_nil _ hyne]

theorem separation_connectorAt : Separation ConnectorAt where
  within := by
    rintro x u k ⟨-, -, hk, y, e, -⟩
    exact ⟨hk.ne_nil, y, e⟩
  single := by
    rintro x u k k' ⟨-, -, hk, y, rfl, hy⟩ ⟨-, -, hk', y', e, hy'⟩
    rw [List.append_cancel_left_eq] at e
    exact connector_eq_of_append_eq hk hk' hy hy' e
  apart := by
    rintro x u u' k k' ⟨-, -, hk, y, rfl, -⟩ ⟨-, hb, -, y', e, -⟩ hlt
    obtain ⟨a, hne, rfl, e'⟩ := exists_of_append_eq e hlt
    rw [List.getLast?_append_of_ne_nil _ hne] at hb
    -- a connector inside the first one would stand behind a blank of it
    rcases List.append_eq_append_iff.1 e' with ⟨b, rfl, -⟩ | ⟨b, rfl, -⟩
    · rw [List.length_append, List.length_append]
      omega
    · exact absurd hb (hk.not_ends_blank rfl)
  behind := by
    rintro u k y v k' ⟨hu, -, hk, -⟩
    have htext :
        (∃ r, u ++ (k ++ y) = u ++ (k ++ v) ++ (k' ++ r) ∧ ∀ c ∈ r.head?, isBlank c = true) ↔
        ∃ r, y = v ++ (k' ++ r) ∧ ∀ c ∈ r.head?, isBlank c = true := by
      refine exists_congr fun r => and_congr_left fun _ => ?_
      rw [List.append_assoc, List.append_assoc, List.append_cancel_left_eq,
        List.append_cancel_left_eq]
    have hblank : (∃ c ∈ (u ++ (k ++ v)).getLast?, isBlank c = true) ↔
        ∃ c ∈ v.getLast?, isBlank c = true := by
      rw [List.getLast?_append_of_ne_nil _ (List.append_ne_nil_of_left_ne_nil hk.ne_nil v)]
      cases v with
      | nil =>
        rw [List.append_nil]
        refine ⟨fun h => absurd h (hk.not_ends_blank (List.append_nil k).symm), ?_⟩
        rintro ⟨c, hc, -⟩
        cases hc
      | cons c v => rw [List.getLast?_append_of_ne_nil _ (List.cons_ne_nil c v)]
    rw [ConnectorAt, ConnectorAt, htext, hblank, hu.behind_plain_iff hk.plain hk.ne_nil]

/-! ## Other connectors between the same parts -/

namespace Division

/-- A body starts with its first part, which is empty only if the body is. -/
theorem Exact.head?_eq {d d' : Division} (hd : d.Exact ConnectorAt d.chars)
    (h : d'.parts = d.parts) :
    d'.chars.head? = d.chars.head? := by
  cases d with
  | last z => rw [last_of_parts_eq h]
  | cons z k d =>
    obtain ⟨k', r, rfl, -⟩ := cons_of_parts_eq h
    obtain ⟨-, ⟨c, hc, -⟩, -⟩ := (separation_connectorAt.exact_cons_iff.1 hd).1
    have hne : z ≠ [] := by
      rintro rfl
      cases hc
    rw [chars, chars, List.head?_append_of_ne_nil _ hne, List.head?_append_of_ne_nil _ hne]

/-- With other connectors between its parts, a body is divided at the same parts. -/
theorem Exact.reconnect {d d' : Division} (hd : d.Exact ConnectorAt d.chars)
    (h : d'.parts = d.parts) (hk : ∀ k ∈ d'.separators, IsConnector k) :
    d'.Exact ConnectorAt d'.chars := by
  induction d generalizing d' with
  | last z => rwa [last_of_parts_eq h]
  | cons z k d ih =>
    obtain ⟨k', r, rfl, hr⟩ := cons_of_parts_eq h
    obtain ⟨hk', hks⟩ := List.forall_mem_cons.1 hk
    obtain ⟨hz, hfirst, hrest⟩ := separation_connectorAt.exact_cons_iff.1 hd
    have hexact := ih hrest hr hks
    obtain ⟨hpass, hblank, hconn, y, e, hy⟩ := hz
    rw [List.append_cancel_left_eq, List.append_cancel_left_eq] at e
    refine separation_connectorAt.exact_cons_iff.2
      ⟨⟨hpass, hblank, hk', r.chars, rfl, ?_⟩, ?_, hexact⟩
    · rw [hrest.head?_eq hr, e]
      exact hy
    · intro u k'' hu
      by_contra hlt
      rw [Nat.not_le] at hlt
      have hfront := (connectorAt_front_iff hblank hlt).1 hu
      exact absurd (hfirst u k'' ((connectorAt_front_iff hblank hlt).2 hfront)) (Nat.not_le.2 hlt)

/-- The literals of a body end if those of its last part do. -/
theorem Exact.passes_iff {d d' : Division} (hd : d.Exact ConnectorAt d.chars)
    (h : d'.parts = d.parts) (hk : ∀ k ∈ d'.separators, IsConnector k) {e : Nat} :
    Passes 0 d'.chars e ↔ Passes 0 d.chars e := by
  induction d generalizing d' with
  | last z => rw [last_of_parts_eq h]
  | cons z k d ih =>
    obtain ⟨k', r, rfl, hr⟩ := cons_of_parts_eq h
    obtain ⟨hk', hks⟩ := List.forall_mem_cons.1 hk
    obtain ⟨⟨hpass, -, hconn, -⟩, -, hrest⟩ := separation_connectorAt.exact_cons_iff.1 hd
    rw [chars, chars, hpass.behind_plain_iff hk'.plain hk'.ne_nil,
      hpass.behind_plain_iff hconn.plain hconn.ne_nil, ih hrest hr hks]

end Division

/-! ## Reading a body -/

namespace Where

/-- A connector at a site, said of the text in front of the site and the text from it on. -/
theorem connector?_site_iff {u : List Char} {c : Char} {r : List Char} {n : Nat} :
    connector? (((Place.start 0 none).advance u).site c r) = some n ↔
      ((Place.start 0 none).advance u).depth = 0 ∧ (∃ d ∈ u.getLast?, isBlank d = true) ∧
        ∃ k y, c :: r = k ++ y ∧ IsConnector k ∧ n = k.length ∧
          ∀ d ∈ y.head?, isBlank d = true := by
  have hand := Keyword.topKeyword?_site_iff (k := .and) (u := u) (c := c) (r := r) (n := n) rfl rfl
  have hor := Keyword.topKeyword?_site_iff (k := .or) (u := u) (c := c) (r := r) (n := n) rfl rfl
  rw [connector?, Option.orElse_eq_orElse, Option.orElse_eq_or, Option.or_eq_some_iff, hand, hor]
  constructor
  · rintro (⟨hd, hb, k, y, e, hk, hn, hy⟩ | ⟨-, hd, hb, k, y, e, hk, hn, hy⟩)
    · exact ⟨hd, hb, k, y, e, .inl hk, hn, hy⟩
    · exact ⟨hd, hb, k, y, e, .inr hk, hn, hy⟩
  · rintro ⟨hd, hb, k, y, e, hk, hn, hy⟩
    rcases hk with hk | hk
    · exact .inl ⟨hd, hb, k, y, e, hk, hn, hy⟩
    · refine .inr ⟨?_, hd, hb, k, y, e, hk, hn, hy⟩
      rw [Option.eq_none_iff_forall_ne_some]
      intro m hm
      obtain ⟨-, -, k', y', e', hk', -, hy'⟩ := (Keyword.topKeyword?_site_iff rfl rfl).1 hm
      obtain rfl := connector_eq_of_append_eq (.inr hk) (.inl hk') hy hy' (e.symm.trans e')
      rw [hk] at hk'
      cases hk'

/-- The walk meets exactly the connectors at which the body is divided. -/
theorem mem_connections_iff {x : List Char} {m : Nat × Nat} :
    m ∈ (sitesFrom (.start 0 none) x).filterMap connection? ↔
      ∃ u k, ConnectorAt x u k ∧ m = (u.length, u.length + k.length) := by
  rw [mem_filterMap_sites_iff]
  constructor
  · rintro ⟨u, c, r, rfl, ho, hm⟩
    obtain ⟨n, hn, rfl⟩ := Option.map_eq_some_iff.1 hm
    obtain ⟨hd, hb, k, y, e, hk, rfl, hy⟩ := connector?_site_iff.1 hn
    have hpass := (passes_iff_advance (Place.fresh_start 0 none u)).2
      ⟨Place.terminated_of_isOutside ho, hd⟩
    exact ⟨u, k, ⟨hpass, hb, hk, y, by rw [e], hy⟩, by rw [Place.site, Place.index_advance_start]⟩
  · rintro ⟨u, k, ⟨hu, hb, hk, y, rfl, hy⟩, rfl⟩
    obtain ⟨ht, hd⟩ := hu.advance (Place.fresh_start 0 none u) rfl
    have hclear := Place.clear_advance (Place.clear_start 0 none) ht
    obtain ⟨c, k, rfl⟩ := List.exists_cons_of_ne_nil hk.ne_nil
    refine ⟨u, c, k ++ y, rfl,
      Place.isOutside_of_clear hclear (hk.plain c List.mem_cons_self).1, ?_⟩
    have hfound :
        connector? (((Place.start 0 none).advance u).site c (k ++ y)) = some (c :: k).length :=
      connector?_site_iff.2 ⟨hd, hb, c :: k, y, rfl, hk, rfl, hy⟩
    rw [connection?, hfound, Option.map_some, Place.site, Place.index_advance_start]

/-- A body whose literals end is read exactly if no part between its connectors is blank. -/
theorem split_eq_ok_iff_exact {body : Piece} {fs : List Piece} (hs : Skimmed body.chars)
    {d : Division} (hd : d.Exact ConnectorAt body.chars) :
    split body = .ok fs ↔ body.chars ≠ [] ∧ (∀ z ∈ d.parts, ∃ c ∈ z, isBlank c = false) ∧
      fs = d.pieces body.start := by
  have hindex : ∀ s m, connection? s = some m → m.1 = s.index := by
    intro s m hm
    obtain ⟨n, -, rfl⟩ := Option.map_eq_some_iff.1 hm
    rfl
  have hmarks := hd.filterMap_sites separation_connectorAt hindex fun m => mem_connections_iff
  have hcuts := Piece.cutsFrom_marksFrom (p := body) (u := []) hd.chars_eq.symm
  rw [List.length_nil, byteLength_nil, Nat.add_zero] at hcuts
  rw [split_eq_ok_iff, hmarks, hcuts, ← @Division.forall_pieces_ne_nil d body.start]
  refine and_congr_right fun _ => ?_
  constructor
  · rintro ⟨-, rfl, hne⟩
    exact ⟨hne, rfl⟩
  · rintro ⟨hne, rfl⟩
    exact ⟨skimmed_iff.1 hs, rfl, hne⟩

theorem exists_error_of_blank {body : Piece} (hs : Skimmed body.chars) {d : Division}
    (hd : d.Exact ConnectorAt body.chars) (h : ¬∀ z ∈ d.parts, ∃ c ∈ z, isBlank c = false) :
    ∃ e, split body = .error e ∧ e.kind = .malformedCondition := by
  cases hr : split body with
  | error e =>
    have hterm : body.outline.unterminated? = none := by
      rw [Piece.outline_eq]
      exact skimmed_iff.1 hs
    exact ⟨e, rfl, (kinds_split_of_terminated hterm).of_error hr⟩
  | ok fs => exact absurd ((split_eq_ok_iff_exact hs hd).1 hr).2.1 h

/-- Bodies with the same parts are read alike. -/
theorem agree_parse_of_parts {body body' : Piece} {d d' : Division} (hs : Skimmed body.chars)
    (hs' : Skimmed body'.chars) (hd : d.Exact ConnectorAt body.chars)
    (hd' : d'.Exact ConnectorAt body'.chars) (h : d'.parts = d.parts) :
    Agree (· = ·) (parse body) (parse body') := by
  by_cases hparts : ∀ z ∈ d.parts, ∃ c ∈ z, isBlank c = false
  · have hfs : split body = .ok (d.pieces body.start) :=
      (split_eq_ok_iff_exact hs hd).2 ⟨hd.chars_eq ▸ Division.chars_ne_nil hparts, hparts, rfl⟩
    rw [← h] at hparts
    have hfs' : split body' = .ok (d'.pieces body'.start) :=
      (split_eq_ok_iff_exact hs' hd').2 ⟨hd'.chars_eq ▸ Division.chars_ne_nil hparts, hparts, rfl⟩
    have hchars : List.Forall₂ (fun p q : Piece => p.chars = q.chars) (d.pieces body.start)
        (d'.pieces body'.start) := by
      have e : (d.pieces body.start).map Piece.chars = (d'.pieces body'.start).map Piece.chars := by
        rw [Division.chars_pieces, Division.chars_pieces, h]
      rwa [← List.forall₂_eq_eq_eq, List.forall₂_map_left_iff, List.forall₂_map_right_iff] at e
    have hagree : Agree (List.Forall₂ (· = ·)) ((d.pieces body.start).mapM Condition.parse)
        ((d'.pieces body'.start).mapM Condition.parse) :=
      .mapM hchars fun p q e => agree_of_relocated_eq (fun p _ => Condition.relocated_parse p) e
    rw [parse, parse, hfs, hfs']
    rwa [List.forall₂_eq_eq_eq] at hagree
  · obtain ⟨e, he, hkind⟩ := exists_error_of_blank hs hd hparts
    rw [← h] at hparts
    obtain ⟨e', he', hkind'⟩ := exists_error_of_blank hs' hd' hparts
    rw [parse, parse, he, he']
    exact .error (hkind.trans hkind'.symm)

/-- A body is divided at its connectors in exactly one way. If its literals end, it is read exactly
if it is not empty and no part is blank, and the fragments are then the parts, trimmed. With any
connectors in the place of those that divide it, the same conditions are read from it, or it is
refused for a mistake of the same kind. -/
theorem split_at_connectors (body : Piece) (h : Skimmed body.chars) :
    (∃! d : Division, d.Exact ConnectorAt body.chars) ∧
    ∀ d : Division, d.Exact ConnectorAt body.chars →
      ((∃ fs, split body = .ok fs) ↔
        body.chars ≠ [] ∧ ∀ z ∈ d.parts, ∃ c ∈ z, isBlank c = false) ∧
      (∀ fs, split body = .ok fs → fs = d.pieces body.start) ∧
      ∀ (d' : Division) (body' : Piece), d'.parts = d.parts → (∀ k ∈ d'.separators, IsConnector k) →
        body'.chars = d'.chars → Agree (· = ·) (parse body) (parse body') := by
  refine ⟨separation_connectorAt.existsUnique_exact body.chars,
    fun d hd => ⟨⟨?_, ?_⟩, fun fs hf => ?_, ?_⟩⟩
  · rintro ⟨fs, hf⟩
    obtain ⟨hne, hparts, -⟩ := (split_eq_ok_iff_exact h hd).1 hf
    exact ⟨hne, hparts⟩
  · rintro ⟨hne, hparts⟩
    exact ⟨_, (split_eq_ok_iff_exact h hd).2 ⟨hne, hparts, rfl⟩⟩
  · exact ((split_eq_ok_iff_exact h hd).1 hf).2.2
  · intro d' body' hparts hk e
    have hexact : d.Exact ConnectorAt d.chars := by rwa [hd.chars_eq]
    have hs' : Skimmed body'.chars := by
      rw [skimmed_iff_passes, ← hd.chars_eq] at h
      rw [skimmed_iff_passes, e]
      exact h.imp fun _ => (hexact.passes_iff hparts hk).2
    have hd' := hexact.reconnect hparts hk
    rw [← e] at hd'
    exact agree_parse_of_parts h hs' hd hd' hparts

/-- A body with one connector inside a literal and one inside parentheses. -/
def connectedSample : Piece :=
  .ofString "a = 'é' and b = 'x or y' Or max(c and d) = 2" 6

theorem split_at_connectors_sample : Skimmed connectedSample.chars ∧
    ∃ d : Division, d.Exact ConnectorAt connectedSample.chars ∧
      d.pieces connectedSample.start = [.ofString "a = 'é'" 6, .ofString "b = 'x or y'" 19,
        .ofString "max(c and d) = 2" 35] := by
  have h : Skimmed connectedSample.chars := skimmed_iff.2 (by decide +kernel)
  have hsplit : split connectedSample = .ok [.ofString "a = 'é'" 6, .ofString "b = 'x or y'" 19,
      .ofString "max(c and d) = 2" 35] := by decide +kernel
  obtain ⟨⟨d, hd, -⟩, hdivided⟩ := split_at_connectors connectedSample h
  exact ⟨h, d, hd, ((hdivided d hd).2.1 _ hsplit).symm⟩

end Where

end TableQuery
