import TableQuery.Proofs.KeywordMatch
import TableQuery.Proofs.Search

/-!
# Texts with joints

A statement is put together from parts with keywords between them. A `Joint` is such a keyword, with
the blanks around it, and the part that follows it: a search for the keyword succeeds once in it, in
front of the part. If the parts are balanced, the search finds every joint, and nothing else exactly
if it fails in the parts: `filterMap_assemble` reads off the marks of a text whose parts are quiet,
and `quiet_of_count` concludes that the parts are quiet when there are no more marks than joints.
-/

namespace TableQuery

open Text Outline

/-! ## In front of the first keyword -/

/-- What stands in front of a search result in a tight text is trimmed at its end only. -/
theorem exists_trim_blank {x u v : List Char} (ht : Tight x) (e : x = u ++ v) :
    ∃ b, Blank b ∧ u = trim u ++ b := by
  cases u with
  | nil => exact ⟨[], blank_nil, rfl⟩
  | cons c u =>
    have hstart : trimStart (c :: u) = c :: u := by
      refine trimStart_eq_self fun d hd => ht.head d ?_
      rw [e]
      exact hd
    obtain ⟨b, hb, hu⟩ := exists_trimEnd_blank (c :: u)
    exact ⟨b, hb, by rw [trim, hstart]; exact hu⟩

/-- A search that succeeds first behind a text fails in its front part. -/
theorem quiet_of_firstAt {α : Type} {f : Site → Option α} {x u b : List Char} {d : Char}
    {r : List Char} {a : α} (hf : FirstAt f (.start 0 none) u d r a) (hu : u = x ++ b)
    (hp : Persistent f (b ++ d :: r)) : Quiet f none x := by
  have hq := hf.quiet
  rw [hu] at hq
  refine quiet_of_sites (y := b ++ d :: r) ?_ hp (Place.fresh_start 0 none x) rfl
  intro s hs
  have := (forall_sitesFrom_append.1 hq).1 s hs
  rwa [Site.extend_extend] at this

/-- The text in front of the first keyword, without its blanks, has no keyword on its own. -/
theorem quiet_front {k : Keyword} {x u : List Char} {d : Char} {r : List Char} {n : Nat}
    (ht : Tight x) (e : x = u ++ d :: r) (hf : FirstAt (·.keyword? k) (.start 0 none) u d r n) :
    Quiet (·.keyword? k) none (trim u) := by
  by_cases hne : trim u = []
  · rw [hne]
    exact fun s hs => by cases hs
  · obtain ⟨b, hb, hu⟩ := exists_trim_blank ht e
    -- a blank stands in front of the keyword, and none at the end of the trimmed text
    have hblank : ∀ c ∈ (b ++ d :: r).head?, isBlank c = true := by
      cases b with
      | nil =>
        rw [List.append_nil] at hu
        have hbefore : ((Place.start 0 none).advance u).before.any isBlank = true := by
          have hfound := hf.found
          unfold Site.keyword? at hfound
          split at hfound
          · rename_i hb'
            exact hb'
          · cases hfound
        rw [Place.advance_before, hu] at hbefore
        cases hl : (trim u).getLast? with
        | none => exact absurd (List.getLast?_eq_none_iff.1 hl) hne
        | some l =>
          rw [hl, Option.some_or, Option.any_some, (tight_trim u).last l hl] at hbefore
          cases hbefore
      | cons b₀ b =>
        intro c hc
        cases hc
        exact hb _ List.mem_cons_self
    exact quiet_of_firstAt hf hu (persistent_keyword? k hblank)

theorem quiet_of_blanks {α : Type} {f : Site → Option α} (hf : ∀ s, s.char = ' ' → f s = none)
    {w : List Char} (hw : ∀ c ∈ w, c = ' ') (p : Place) (y : List Char) :
    ∀ s ∈ sitesFrom p w, f (s.extend y) = none := by
  intro s hs
  obtain ⟨u, d, t, e, -, rfl⟩ := mem_sitesFrom.1 hs
  refine hf _ (hw d ?_)
  rw [e]
  exact List.mem_append_right _ List.mem_cons_self

/-- A search that fails in a text and at blanks fails up to a blank behind the text. -/
theorem quiet_to_keyword {α : Type} {f : Site → Option α} {x y : List Char}
    (hf : Lasting f (' ' :: y)) (hq : Quiet f none x) (hblank : ∀ s, s.char = ' ' → f s = none) :
    ∀ s ∈ sitesFrom (.start 0 none) (x ++ [' ']), f (s.extend y) = none := by
  refine forall_sitesFrom_append.2 ⟨fun s hs => ?_, ?_⟩
  · have := hf s 0 (hq s hs)
    rwa [← List.singleton_append, ← Site.extend_extend] at this
  · exact quiet_of_blanks hblank (fun c hc => List.mem_singleton.1 hc) _ y

theorem match?_eq_none_of_blank {s : Site} (h : s.char = ' ') (k : Keyword) :
    k.match? s.here = none := by
  rw [Site.here, h]
  exact Keyword.match?_cons_eq_none _ (by decide) _

theorem keyword?_eq_none_of_blank {s : Site} (h : s.char = ' ') (k : Keyword) :
    s.keyword? k = none :=
  Site.keyword?_eq_none_iff.2 fun _ => match?_eq_none_of_blank h k

theorem topKeyword?_eq_none_of_blank {s : Site} (h : s.char = ' ') (k : Keyword) :
    s.topKeyword? k = none :=
  Site.topKeyword?_eq_none_iff.2 fun _ _ => match?_eq_none_of_blank h k

/-! ## Joints -/

/-- A keyword between blanks, at which a search succeeds, and the text behind it. -/
structure Joint {α : Type} (f : Site → Option α) where
  lead : List Char
  body : List Char
  /-- What the search finds when the joint stands at a given position. -/
  mark : Nat → α
  plain : Plain lead
  starts : ∃ c r, lead = ' ' :: c :: r ∧ (c ≠ 'B' ∧ c ≠ 'J' ∧ c.toUpper = c ∧ isBlank c = false)
  ends : body ≠ [] → lead.getLast? = some ' '
  found : ∀ (p : Place) (z : List Char), p.Clear → p.depth = 0 → (∀ c ∈ z.head?, c = ' ') →
    ((sitesFrom p lead).map (·.extend (body ++ z))).filterMap f = [mark p.index]

/-- A search for keywords: whether it succeeds at a site is decided as soon as something follows
that no keyword runs into, and is not changed by a blank that follows. -/
structure Keyed {α : Type} (f : Site → Option α) : Prop where
  lasting : ∀ y, Stops y → Lasting f y
  persistent : ∀ y : List Char, (∀ c ∈ y.head?, isBlank c = true) → Persistent f y

namespace Joint

section

variable {α : Type} {f : Site → Option α}

def text (j : Joint f) : List Char :=
  j.lead ++ j.body

/-- A text with joints behind it. -/
def assemble (x : List Char) (l : List (Joint f)) : List Char :=
  x ++ l.flatMap text

/-- What the search finds in joints whose text starts at position `i`. -/
def marksFrom (i : Nat) : List (Joint f) → List α
  | [] => []
  | j :: l => j.mark i :: marksFrom (i + j.text.length) l

theorem assemble_nil (x : List Char) : assemble x ([] : List (Joint f)) = x := by
  rw [assemble, List.flatMap_nil, List.append_nil]

theorem assemble_cons (x : List Char) (j : Joint f) (l : List (Joint f)) :
    assemble x (j :: l) = x ++ (j.lead ++ assemble j.body l) := by
  simp [assemble, text]

theorem lead_ne_nil (j : Joint f) : j.lead ≠ [] := by
  obtain ⟨c, r, e, -⟩ := j.starts
  rw [e]
  exact List.cons_ne_nil _ _

theorem head?_flatMap_text (l : List (Joint f)) : ∀ c ∈ (l.flatMap text).head?, c = ' ' := by
  cases l with
  | nil => exact fun c hc => by cases hc
  | cons j l =>
    obtain ⟨c, r, e, -⟩ := j.starts
    rw [List.flatMap_cons, text, e]
    intro d hd
    cases hd
    rfl

theorem isBlank_flatMap_text (l : List (Joint f)) :
    ∀ c ∈ (l.flatMap text).head?, isBlank c = true := by
  intro c hc
  rw [head?_flatMap_text l c hc]
  decide

theorem stops_flatMap_text (l : List (Joint f)) : Stops (l.flatMap text) := by
  cases l with
  | nil => exact stops_nil
  | cons j l =>
    obtain ⟨c, r, e, hc⟩ := j.starts
    rw [List.flatMap_cons, text, e]
    exact stops_blank hc _

theorem balanced_assemble {x : List Char} {l : List (Joint f)} (hx : Balanced x)
    (hl : ∀ j ∈ l, Balanced j.body) : Balanced (assemble x l) := by
  induction l generalizing x with
  | nil => rwa [assemble_nil]
  | cons j l ih =>
    obtain ⟨hj, hl⟩ := List.forall_mem_cons.1 hl
    rw [assemble_cons]
    exact hx.append_plain j.plain j.lead_ne_nil (ih hj hl)

theorem advance_lead (j : Joint f) {p : Place} (hp : p.Clear) :
    (p.advance j.lead).quoting = .outside ∧ (p.advance j.lead).depth = p.depth ∧
      (j.body ≠ [] → (p.advance j.lead).before = some ' ') := by
  obtain ⟨-, hd, hq⟩ := j.plain.advance hp
  refine ⟨hq j.lead_ne_nil, hd, fun hb => ?_⟩
  rw [Place.advance_before, j.ends hb, Option.some_or]

/-- The marks in a text with a joint behind it: those of the text, that of the joint, and those of
what follows. -/
theorem filterMap_cons {p : Place} {x : List Char} (hx : Balanced x) (hp : p.Fresh x)
    (hd : p.depth = 0) (j : Joint f) (l : List (Joint f)) :
    (sitesFrom p (assemble x (j :: l))).filterMap f =
      ((sitesFrom p x).map (·.extend ((j :: l).flatMap text))).filterMap f ++
        j.mark (p.index + x.length) ::
          (sitesFrom ((p.advance x).advance j.lead) (assemble j.body l)).filterMap f := by
  obtain ⟨hc, hd'⟩ := hx.advance hp
  have hfound := j.found (p.advance x) (l.flatMap text) hc (hd'.trans hd) (head?_flatMap_text l)
  have htext : (j :: l).flatMap text = j.lead ++ (j.body ++ l.flatMap text) := by
    rw [List.flatMap_cons, text, List.append_assoc]
  rw [assemble, sitesFrom_append, List.filterMap_append]
  congr 1
  rw [htext, sitesFrom_append, List.filterMap_append, hfound, Place.advance_index]
  rfl

/-- The part behind a joint is read afresh. -/
theorem place_body (j : Joint f) {p : Place} {x : List Char} (hx : Balanced x) (hp : p.Fresh x)
    (hd : p.depth = 0) :
    ((p.advance x).advance j.lead).Fresh j.body ∧ ((p.advance x).advance j.lead).depth = 0 ∧
      (j.body ≠ [] → ((p.advance x).advance j.lead).before = some ' ') ∧
      ((p.advance x).advance j.lead).index + j.body.length =
        p.index + x.length + j.text.length := by
  obtain ⟨hc, hd'⟩ := hx.advance hp
  obtain ⟨hout, hd'', hbefore⟩ := j.advance_lead hc
  refine ⟨Place.fresh_of_outside hout _, hd''.trans (hd'.trans hd), hbefore, ?_⟩
  rw [Place.advance_index, Place.advance_index, text, List.length_append]
  omega

theorem quiet_body_iff {j : Joint f} {b : Option Char} (hb : j.body ≠ [] → b = some ' ') :
    Quiet f b j.body ↔ Quiet f (some ' ') j.body := by
  by_cases h : j.body = []
  · rw [h]
    constructor <;> exact fun _ s hs => by cases hs
  · rw [hb h]

/-- Where the search fails in all parts, it finds the joints and nothing else. -/
theorem filterMap_assemble (hf : Keyed f) {p : Place} {x : List Char} {l : List (Joint f)}
    (hx : Balanced x) (hp : p.Fresh x) (hd : p.depth = 0) (hq : Quiet f p.before x)
    (hl : ∀ j ∈ l, Balanced j.body ∧ Quiet f (some ' ') j.body) :
    (sitesFrom p (assemble x l)).filterMap f = marksFrom (p.index + x.length) l := by
  induction l generalizing x p with
  | nil =>
    have hsites := hq.sites (hf.lasting [] stops_nil) hp hd
    rw [assemble_nil, marksFrom, List.filterMap_eq_nil_iff]
    intro s hs
    have := hsites s hs
    rwa [Site.extend_nil] at this
  | cons j l ih =>
    obtain ⟨⟨hj, hqj⟩, hl⟩ := List.forall_mem_cons.1 hl
    obtain ⟨hfresh, hdepth, hbefore, hindex⟩ := j.place_body hx hp hd
    have hinner : ((sitesFrom p x).map (·.extend ((j :: l).flatMap text))).filterMap f = [] := by
      rw [List.filterMap_eq_nil_iff, List.forall_mem_map]
      exact hq.sites (hf.lasting _ (stops_flatMap_text (j :: l))) hp hd
    have hrec := ih hj hfresh hdepth ((quiet_body_iff hbefore).2 hqj) hl
    rw [hindex] at hrec
    rw [filterMap_cons hx hp hd, hinner, List.nil_append, hrec, marksFrom]

theorem marksFrom_append (i : Nat) (l l' : List (Joint f)) :
    marksFrom i (l ++ l') = marksFrom i l ++ marksFrom (i + (l.flatMap text).length) l' := by
  induction l generalizing i with
  | nil => rfl
  | cons j l ih =>
    rw [List.cons_append, marksFrom, ih, marksFrom, List.flatMap_cons, List.length_append,
      ← Nat.add_assoc]
    rfl

/-- A text in which the search finds no more than its joints has nothing to find in its parts. -/
theorem quiet_of_count (hf : Keyed f) {p : Place} {x : List Char} {l : List (Joint f)}
    (hx : Balanced x) (hp : p.Fresh x) (hd : p.depth = 0) (hl : ∀ j ∈ l, Balanced j.body) :
    l.length ≤ ((sitesFrom p (assemble x l)).filterMap f).length ∧
      (((sitesFrom p (assemble x l)).filterMap f).length ≤ l.length →
        Quiet f p.before x ∧ ∀ j ∈ l, Quiet f (some ' ') j.body) := by
  induction l generalizing x p with
  | nil =>
    refine ⟨Nat.zero_le _, fun h => ⟨?_, fun j hj => by cases hj⟩⟩
    rw [assemble_nil, List.length_nil, Nat.le_zero, List.length_eq_zero_iff,
      List.filterMap_eq_nil_iff] at h
    refine quiet_of_sites (y := []) ?_ (hf.persistent [] fun c hc => by cases hc) hp hd
    intro s hs
    rw [Site.extend_nil]
    exact h s hs
  | cons j l ih =>
    obtain ⟨hj, hl⟩ := List.forall_mem_cons.1 hl
    obtain ⟨hfresh, hdepth, hbefore, -⟩ := j.place_body hx hp hd
    obtain ⟨hle, hquiet⟩ := ih hj hfresh hdepth hl
    rw [filterMap_cons hx hp hd, List.length_append, List.length_cons, List.length_cons]
    refine ⟨by omega, fun h => ?_⟩
    obtain ⟨hqj, hql⟩ := hquiet (by omega)
    have hinner : ((sitesFrom p x).map (·.extend ((j :: l).flatMap text))).filterMap f = [] :=
      List.length_eq_zero_iff.1 (by omega)
    rw [List.filterMap_eq_nil_iff, List.forall_mem_map] at hinner
    refine ⟨?_, List.forall_mem_cons.2 ⟨(quiet_body_iff hbefore).1 hqj, hql⟩⟩
    exact quiet_of_sites hinner (hf.persistent _ (isBlank_flatMap_text (j :: l))) hp hd

end

end Joint

end TableQuery
