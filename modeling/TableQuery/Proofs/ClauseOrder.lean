import TableQuery.Proofs.ClauseOccurrences
import TableQuery.Proofs.Relocation

/-!
# The order of clauses

Clauses may be written in any order. A `WrittenClause` is a clause as it stands in a statement: its
keyword in any spelling, between any blanks, and a payload that holds no clause keyword of its own.
It is no `Joint`, since a joint has one spelling and single blanks. Behind a head without clause
keywords the marks of the statement are those of the written clauses (`filterMap_assemble`),
whatever their order, and each clause gets its own payload (`split_of_written`). Which kinds have
which payloads is all that is left of the written clauses (`WrittenClause.segment`,
`Clauses.ComposedOf`).

What is read behind the division depends on the texts of the parts alone, and they are read in a
fixed order (`agree_parse_of_sameTexts`). So two orders of the same segments, each written in its
own way, give the same query, or errors of the same kind (`agree_parse_of_perm`).
-/

namespace TableQuery

open Text Outline

/-- A text that may stand between clauses: its delimiters are closed, and no clause keyword stands
in it at the start or behind a blank. -/
def Inert (x : List Char) : Prop :=
  Scanned 0 x ∧ ∀ m : ClauseStart, ¬m.OccursIn (' ' :: x)

theorem inert_iff {x : List Char} : Inert x ↔ Balanced x ∧ ClauseFree x := by
  rw [Inert, scanned_iff_balanced]
  exact and_congr_right fun h => (clauseFree_iff_not_occursIn h).symm

instance (x : List Char) : Decidable (Inert x) :=
  decidable_of_iff _ inert_iff.symm

theorem Inert.balanced {x : List Char} (h : Inert x) : Balanced x :=
  (inert_iff.1 h).1

/-- What stands in front of an inert text does not matter. -/
theorem Inert.quiet {x : List Char} (h : Inert x) (b : Option Char) :
    Quiet ClauseStart.ofSite? b x := by
  have hfree : ClauseFree x := (inert_iff.1 h).2
  intro s hs
  obtain ⟨u, d, r, rfl, ho, rfl⟩ := mem_sitesFrom.1 hs
  cases u with
  | nil =>
    -- behind a blank the keyword would have been found
    have hnone := hfree _ (mem_sitesFrom.2 ⟨[], d, r, rfl, ho, rfl⟩)
    have hblank : ((Place.start 0 (some ' ')).site d r).followsBlank = true := rfl
    rw [Place.advance_nil, ClauseStart.ofSite?, if_pos ⟨rfl, hblank⟩,
      Option.map_eq_none_iff] at hnone
    rw [Place.advance_nil, ClauseStart.ofSite?]
    split
    · rw [Option.map_eq_none_iff]
      exact hnone
    · rfl
  | cons c u => exact hfree _ (mem_sitesFrom.2 ⟨c :: u, d, r, rfl, ho, rfl⟩)

/-- The clauses are those of a statement with the given head and segments, each without the blanks
around it. -/
structure Clauses.ComposedOf (c : Clauses) (core : List Char) (ss : List (ClauseKind × List Char)) :
    Prop where
  head : c.head.chars = trim core
  body : ∀ s ∈ ss, (c.body? s.1).map Piece.chars = some (trim s.2)
  absent : ∀ k, (∀ s ∈ ss, s.1 ≠ k) → c.body? k = none

/-- A clause as it stands in a statement: its keyword in some spelling, between blanks, and its
payload. -/
structure WrittenClause where
  kind : ClauseKind
  before : List Char
  keyword : List Char
  gap : List Char
  payload : List Char
  before_blank : Blank before
  before_ne_nil : before ≠ []
  spells : Spelling.Spells kind.keyword.spelling.words keyword
  gap_blank : Blank gap
  gap_ne_nil : gap ≠ []
  payload_inert : Inert payload

namespace WrittenClause

/-- What the clause says, however it is written: its kind and its payload. -/
def segment (a : WrittenClause) : ClauseKind × List Char :=
  (a.kind, a.payload)

/-- What stands in front of the payload. -/
def lead (a : WrittenClause) : List Char :=
  a.before ++ (a.keyword ++ a.gap)

def text (a : WrittenClause) : List Char :=
  a.lead ++ a.payload

/-- The mark of the clause when it stands at a given position. -/
def mark (a : WrittenClause) (i : Nat) : ClauseStart :=
  ⟨a.kind, i + a.before.length, i + a.before.length + a.keyword.length⟩

/-- The text of a statement with the given head and clauses. -/
def assemble (core : List Char) (l : List WrittenClause) : List Char :=
  core ++ l.flatMap text

/-- The marks of clauses whose text starts at position `i`. -/
def marksFrom (i : Nat) : List WrittenClause → List ClauseStart
  | [] => []
  | a :: l => a.mark i :: marksFrom (i + a.text.length) l

theorem head?_gap (a : WrittenClause) (z : List Char) :
    ∀ c ∈ (a.gap ++ z).head?, isBlank c = true := by
  obtain ⟨b, g, e⟩ := List.exists_cons_of_ne_nil a.gap_ne_nil
  have hb := a.gap_blank b (by rw [e]; exact List.mem_cons_self)
  rw [e]
  rintro c hc
  cases hc
  exact hb

theorem isLead (a : WrittenClause) : a.kind.Lead a.before a.keyword a.gap :=
  ⟨a.before_blank, a.before_ne_nil, a.spells, a.gap_blank⟩

theorem plain_lead (a : WrittenClause) : Plain a.lead :=
  a.isLead.plain

theorem lead_ne_nil (a : WrittenClause) : a.lead ≠ [] :=
  fun e => a.before_ne_nil (List.append_eq_nil_iff.1 e).1

/-- No keyword runs from the text in front of clauses into them. -/
theorem stops_flatMap_text (l : List WrittenClause) : Stops (l.flatMap text) := by
  cases l with
  | nil => exact stops_nil
  | cons a l =>
    obtain ⟨b, bs, hb⟩ := List.exists_cons_of_ne_nil a.before_ne_nil
    obtain ⟨c, t, hc, hup, hB, hJ⟩ := ClauseKind.exists_of_spells a.spells
    have htext : (a :: l).flatMap text =
        a.before ++ (c :: (t ++ (a.gap ++ (a.payload ++ l.flatMap text)))) := by
      simp [text, lead, hc]
    constructor
    · rw [htext, hb]
      rintro d hd
      cases hd
      exact Spelling.isUpper_toUpper_of_isBlank
        (a.before_blank b (by rw [hb]; exact List.mem_cons_self))
    · have hblank : isBlank c = false := Spelling.not_isBlank_of_isUpper hup
      rw [htext, trimStart_blank_append a.before_blank,
        trimStart_eq_self (by rintro d hd; cases hd; exact hblank)]
      rintro d hd
      cases hd
      exact ⟨hB, hJ⟩

/-- What a search finds from a written clause on: the clause, then what stands in and behind its
payload. -/
theorem filterMap_lead (a : WrittenClause) {p : Place} (hp : p.Clear) (hd : p.depth = 0)
    (z : List Char) :
    (sitesFrom p (a.lead ++ z)).filterMap ClauseStart.ofSite? =
      a.mark p.index :: (sitesFrom (p.advance a.lead) z).filterMap ClauseStart.ofSite? := by
  rw [sitesFrom_append, List.filterMap_append, lead, a.isLead.filterMap_sites hp hd (a.head?_gap z)]
  rfl

/-! ## Marks and parts of an assembled statement -/

theorem assemble_cons (core : List Char) (a : WrittenClause) (l : List WrittenClause) :
    assemble core (a :: l) = core ++ (a.lead ++ assemble a.payload l) := by
  simp [assemble, text]

theorem balanced_assemble {core : List Char} (hcore : Balanced core) (l : List WrittenClause) :
    Balanced (assemble core l) := by
  induction l generalizing core with
  | nil => simpa [assemble] using hcore
  | cons a l ih =>
    rw [assemble_cons]
    exact hcore.append_plain a.plain_lead a.lead_ne_nil (ih a.payload_inert.balanced)

/-- In the text of clauses a search finds these clauses. -/
theorem filterMap_flatMap_text {p : Place} (hp : p.Clear) (hd : p.depth = 0)
    (l : List WrittenClause) :
    (sitesFrom p (l.flatMap text)).filterMap ClauseStart.ofSite? = marksFrom p.index l := by
  induction l generalizing p with
  | nil => rfl
  | cons a l ih =>
    obtain ⟨-, hdepth, hquoting⟩ := a.plain_lead.advance hp
    have hfresh : (p.advance a.lead).Fresh a.payload :=
      Place.fresh_of_outside (hquoting a.lead_ne_nil) a.payload
    obtain ⟨hclear', hdepth'⟩ := a.payload_inert.balanced.advance hfresh
    have hpayload : ∀ s ∈ sitesFrom (p.advance a.lead) a.payload,
        ClauseStart.ofSite? (s.extend (l.flatMap text)) = none :=
      (a.payload_inert.quiet _).sites (ClauseStart.keyed_ofSite?.lasting _ (stops_flatMap_text l))
        hfresh (hdepth.trans hd)
    have hindex : ((p.advance a.lead).advance a.payload).index = p.index + a.text.length := by
      rw [Place.advance_index, Place.advance_index, text, List.length_append, Nat.add_assoc]
    rw [List.flatMap_cons, text, List.append_assoc, a.filterMap_lead hp hd,
      filterMap_append_of_none hpayload, ih hclear' (hdepth'.trans (hdepth.trans hd)), hindex]
    rfl

/-- Behind an inert head the marks are those of the written clauses. -/
theorem filterMap_assemble {core : List Char} (hcore : Inert core) (l : List WrittenClause) :
    (sitesFrom (.start 0 none) (assemble core l)).filterMap ClauseStart.ofSite? =
      marksFrom core.length l := by
  have hfresh := Place.fresh_start 0 none core
  obtain ⟨hclear, hdepth⟩ := hcore.balanced.advance hfresh
  have hinner : ∀ s ∈ sitesFrom (.start 0 none) core,
      ClauseStart.ofSite? (s.extend (l.flatMap text)) = none :=
    (hcore.quiet none).sites (ClauseStart.keyed_ofSite?.lasting _ (stops_flatMap_text l))
      hfresh rfl
  rw [assemble, filterMap_append_of_none hinner, filterMap_flatMap_text hclear hdepth,
    Place.advance_index]
  simp [Place.start]

theorem marksFrom_append (i : Nat) (l l' : List WrittenClause) :
    marksFrom i (l ++ l') = marksFrom i l ++ marksFrom (i + (l.flatMap text).length) l' := by
  induction l generalizing i with
  | nil => rfl
  | cons a l ih =>
    rw [List.cons_append, marksFrom, ih, marksFrom, List.flatMap_cons, List.length_append,
      ← Nat.add_assoc]
    rfl

theorem map_kind_marksFrom (i : Nat) (l : List WrittenClause) :
    (marksFrom i l).map ClauseStart.kind = l.map kind := by
  induction l generalizing i with
  | nil => rfl
  | cons a l ih =>
    rw [marksFrom, List.map_cons, List.map_cons, ih]
    rfl

/-- A part that reaches to the first of the clauses behind it loses the blanks in front of it. -/
theorem cut_to_reach {statement : Piece} {u x : List Char} {l : List WrittenClause}
    (h : statement.chars = u ++ (x ++ l.flatMap text)) {i j : Nat} (hi : i = u.length)
    (hj : j = u.length + x.length) :
    (statement.cut i (Clauses.reach statement (marksFrom j l))).chars = trim x := by
  cases l with
  | nil =>
    rw [List.flatMap_nil, List.append_nil] at h
    exact Piece.rest_of_eq h hi
  | cons a l =>
    have h' : statement.chars = u ++ ((x ++ a.before) ++ ((a.keyword ++ a.gap) ++
        (a.payload ++ l.flatMap text))) := by
      rw [h]
      simp [text, lead]
    rw [← trim_append_blank a.before_blank]
    apply Piece.cut_of_eq h' hi
    rw [List.length_append, ← Nat.add_assoc, ← hj]
    rfl

/-- A statement is divided into its head and the payloads of its clauses. -/
theorem split_of_written {core : List Char} {l : List WrittenClause} (hcore : Inert core)
    (hn : (l.map (·.kind.slot)).Nodup) (start : Nat) :
    ∃ c, Clauses.split ⟨assemble core l, start⟩ = .ok c ∧ c.ComposedOf core (l.map segment) := by
  let statement : Piece := ⟨assemble core l, start⟩
  have hbalanced : Balanced statement.chars := balanced_assemble hcore.balanced l
  have hslots : ((marksFrom core.length l).map ClauseStart.slot).Nodup := by
    rw [ClauseStart.map_slot, map_kind_marksFrom, List.map_map]
    exact hn
  obtain ⟨c, hsplit, hdivided⟩ :=
    Clauses.split_of_nodup hbalanced (filterMap_assemble hcore l) hslots
  refine ⟨c, hsplit, ?_, List.forall_mem_map.2 fun a ha => ?_,
    fun k hk => hdivided.body?_eq_none ?_⟩
  · rw [hdivided.head]
    exact cut_to_reach (u := []) rfl rfl (by simp)
  · obtain ⟨l₁, l₂, rfl⟩ := List.append_of_mem ha
    have hbody : c.body? a.kind = _ :=
      hdivided.body _ _ _ (marksFrom_append core.length l₁ (a :: l₂))
    have htext : statement.chars = (core ++ (l₁.flatMap text ++ (a.before ++ a.keyword))) ++
        ((a.gap ++ a.payload) ++ l₂.flatMap text) := by
      simp [statement, assemble, text, lead]
    rw [segment, hbody, Option.map_some, ← trim_blank_append a.gap_blank]
    refine congrArg some (cut_to_reach htext ?_ ?_)
    · simp only [mark, List.length_append]
      omega
    · simp only [text, lead, List.length_append]
      omega
  · rw [map_kind_marksFrom]
    intro hmem
    obtain ⟨a, ha, e⟩ := List.mem_map.1 hmem
    exact hk a.segment (List.mem_map_of_mem ha) e

end WrittenClause

/-! ## Reading clauses by their texts -/

/-- The same texts stand in the head and in the clauses. -/
structure Clauses.SameTexts (c c' : Clauses) : Prop where
  head : c.head.chars = c'.head.chars
  body : ∀ k, (c.body? k).map Piece.chars = (c'.body? k).map Piece.chars

/-- The order of the segments leaves no trace in the parts. -/
theorem Clauses.ComposedOf.sameTexts {c c' : Clauses} {core : List Char}
    {ss ss' : List (ClauseKind × List Char)} (h : c.ComposedOf core ss)
    (h' : c'.ComposedOf core ss') (hperm : ss.Perm ss') : c.SameTexts c' where
  head := h.head.trans h'.head.symm
  body k := by
    by_cases hk : ∃ s ∈ ss, s.1 = k
    · obtain ⟨s, hs, rfl⟩ := hk
      rw [h.body s hs, h'.body s (hperm.mem_iff.1 hs)]
    · have hk : ∀ s ∈ ss, s.1 ≠ k := fun s hs e => hk ⟨s, hs, e⟩
      rw [h.absent k hk, h'.absent k fun s hs => hk s (hperm.mem_iff.2 hs)]

namespace SelectQuery

theorem agree_optional_of_chars {α : Type} {read : Piece → Except ParseError α}
    (h : ∀ p n, Relocated n (· = ·) (read p) (read (p.relocate n))) {b b' : Option Piece}
    (e : b.map Piece.chars = b'.map Piece.chars) :
    Agree (· = ·) (optional b read) (optional b' read) := by
  cases b with
  | none =>
    cases b' with
    | none => exact .ok rfl
    | some p' => cases e
  | some p =>
    cases b' with
    | none => cases e
    | some p' =>
      refine (agree_of_relocated_eq h (Option.some.inj e)).map fun a b hab => ?_
      rw [hab]

theorem agree_joinOf {c c' : Clauses} (h : c.SameTexts c') :
    Agree (· = ·) (joinOf c) (joinOf c') := by
  cases hj : c.join with
  | some j =>
    obtain ⟨kind, b⟩ := j
    have hb := h.body (.join kind)
    rw [Clauses.join_eq_some_iff.1 hj] at hb
    obtain ⟨b', hb', e⟩ := Option.map_eq_some_iff.1 hb.symm
    rw [joinOf, joinOf, hj, Clauses.join_eq_some_iff.2 hb']
    refine (agree_of_relocated_eq (fun p n => Join.relocated_parse kind p) e.symm).map
      fun a b hab => ?_
    rw [hab]
  | none =>
    have hj' : c'.join = none := by
      cases hj' : c'.join with
      | none => rfl
      | some j =>
        have hb := h.body (.join j.1)
        rw [Clauses.join_eq_some_iff.1 hj', Clauses.body?, hj] at hb
        cases hb
    rw [joinOf, joinOf, hj, hj']
    exact .ok rfl

/-- A query is decided by the texts of the head and of the clauses. -/
theorem agree_parse_of_sameTexts {p p' : Piece}
    (h : Agree Clauses.SameTexts (Clauses.split p) (Clauses.split p')) :
    Agree (· = ·) (parse p) (parse p') := by
  unfold parse
  refine h.bind fun c c' hc => ?_
  have hhead := agree_of_relocated
    (R := fun n a b => b = ({ a with fields := a.fields.relocate n } : SelectHead))
    (fun p n => SelectHead.relocated_parse p) hc.head
  refine hhead.bind fun a b hab => ?_
  obtain ⟨head, i, j, rfl, rfl⟩ := hab
  have hchars : (head.fields.relocate i).chars = (head.fields.relocate j).chars := rfl
  refine (agree_of_relocated_eq (fun p n => ItemList.relocated_parse .projection p) hchars).bind
    fun fields _ e => ?_
  cases e
  refine (agree_joinOf hc).bind fun join _ e => ?_
  cases e
  refine (agree_optional_of_chars (fun p n => Where.relocated_parse p) (hc.body .whereRows)).bind
    fun conditions _ e => ?_
  cases e
  refine (agree_optional_of_chars (fun p n => ItemList.relocated_parse .groupBy p)
    (hc.body .groupBy)).bind fun groupBy _ e => ?_
  cases e
  refine (agree_optional_of_chars (fun p n => SortKey.relocated_parse p) (hc.body .orderBy)).bind
    fun orderBy _ e => ?_
  cases e
  refine (agree_optional_of_chars (fun p n => Limit.relocated_parse p) (hc.body .limit)).bind
    fun limit _ e => ?_
  cases e
  exact .ok rfl

/-- The order of clauses and the way they are written do not matter: the same segments, in any two
orders, with any spelling of their keywords and any blanks around them, behind the same head, give
the same query or errors of the same kind. -/
theorem agree_parse_of_perm {core : List Char} {l l' : List WrittenClause}
    (h : (l.map WrittenClause.segment).Perm (l'.map WrittenClause.segment)) (hcore : Inert core)
    (hn : (l.map (·.kind.slot)).Nodup) (start start' : Nat) :
    Agree (· = ·) (parse ⟨WrittenClause.assemble core l, start⟩)
      (parse ⟨WrittenClause.assemble core l', start'⟩) := by
  -- the slots of clauses are those of their segments
  have hslots : (l.map (·.kind.slot)).Perm (l'.map (·.kind.slot)) := by
    have hmap := h.map fun s => s.1.slot
    rwa [List.map_map, List.map_map] at hmap
  have hn' : (l'.map (·.kind.slot)).Nodup := hslots.nodup_iff.1 hn
  obtain ⟨c, hs, hc⟩ := WrittenClause.split_of_written hcore hn start
  obtain ⟨c', hs', hc'⟩ := WrittenClause.split_of_written hcore hn' start'
  apply agree_parse_of_sameTexts
  rw [hs, hs']
  exact .ok (hc.sameTexts hc' h)

/-- A limit may stand in front of the sort order, and each statement writes the two clauses in its
own way. -/
theorem agree_parse_limit_first : Inert "SELECT a FROM t".toList ∧
    Agree (· = ·) (parse ⟨"SELECT a FROM t order  by a DESC LIMIT 3".toList, 0⟩)
      (parse ⟨"SELECT a FROM t\tlimit  3 ORDER BY a DESC".toList, 0⟩) := by
  have hcore : Inert "SELECT a FROM t".toList := by decide +kernel
  let sorted : WrittenClause :=
    { kind := .orderBy
      before := [' ']
      keyword := "order".toList ++ ("  ".toList ++ "by".toList)
      gap := [' ']
      payload := "a DESC".toList
      before_blank := by decide
      before_ne_nil := by decide
      spells := .cons (by decide) (by decide) (by decide) (.word (by decide))
      gap_blank := by decide
      gap_ne_nil := by decide
      payload_inert := by decide +kernel }
  let limited : WrittenClause :=
    { kind := .limit
      before := [' ']
      keyword := "LIMIT".toList
      gap := [' ']
      payload := "3".toList
      before_blank := by decide
      before_ne_nil := by decide
      spells := .word (by decide)
      gap_blank := by decide
      gap_ne_nil := by decide
      payload_inert := by decide +kernel }
  let limited' : WrittenClause :=
    { limited with
      before := ['\t']
      keyword := "limit".toList
      gap := [' ', ' ']
      before_blank := by decide
      before_ne_nil := by decide
      spells := .word (by decide)
      gap_blank := by decide
      gap_ne_nil := by decide }
  let sorted' : WrittenClause :=
    { sorted with
      keyword := "ORDER".toList ++ (" ".toList ++ "BY".toList)
      spells := .cons (by decide) (by decide) (by decide) (.word (by decide)) }
  have hperm : ([sorted, limited].map WrittenClause.segment).Perm
      ([limited', sorted'].map WrittenClause.segment) :=
    .swap limited.segment sorted.segment []
  exact ⟨hcore, agree_parse_of_perm hperm hcore (by decide) 0 0⟩

end SelectQuery

end TableQuery
