import TableQuery.Cursor
import TableQuery.Proofs.Respelling
import TableQuery.Proofs.Search

/-!
# Respelled pieces

The outline of a respelled piece is the respelled outline, site by site, because the signs and the
quotes that shape it stay (`Piece.respell_outlineFrom`). A search at its sites finds the same
(`Piece.respell_search`).

What a reader makes of a respelled piece is always the respelled form of what it makes of the piece
(`Respelling.outcome`), and this carries over from the steps of a reader to the reader
(`outcome_bind`).
-/

namespace TableQuery

open Text

/-- The refusal with its text respelled and its range moved on. -/
def ParseError.respell (g : Respelling) (e : ParseError) : ParseError :=
  { e with text := e.text.map g.char, start := e.start + g.offset, stop := e.stop + g.offset }

/-! ## Outcomes -/

namespace Respelling

variable {α β γ δ : Type} (g : Respelling)

/-- The outcome for the respelled input: a changed result, or the respelled refusal. -/
def outcome (φ : α → β) (x : Except ParseError α) : Except ParseError β :=
  (x.map φ).mapError (ParseError.respell g)

@[simp] theorem outcome_ok (φ : α → β) (a : α) : g.outcome φ (.ok a) = .ok (φ a) := rfl

@[simp] theorem outcome_pure (φ : α → β) (a : α) : g.outcome φ (pure a) = pure (φ a) := rfl

@[simp] theorem outcome_error (φ : α → β) (e : ParseError) :
    g.outcome φ (.error e) = .error (e.respell g) := rfl

variable {g}

theorem outcome_bind {φ : α → β} {ψ : γ → δ} {x : Except ParseError α} {x' : Except ParseError β}
    {f : α → Except ParseError γ} {f' : β → Except ParseError δ} (hx : x' = g.outcome φ x)
    (hf : ∀ a, f' (φ a) = g.outcome ψ (f a)) : (x' >>= f') = g.outcome ψ (x >>= f) := by
  subst hx
  cases x with
  | error e => rfl
  | ok a => exact hf a

theorem outcome_ite {φ : α → β} {c : Prop} [Decidable c] {x y : Except ParseError α}
    {x' y' : Except ParseError β} (ht : x' = g.outcome φ x) (hf : y' = g.outcome φ y) :
    (if c then x' else y') = g.outcome φ (if c then x else y) := by
  split
  · exact ht
  · exact hf

theorem outcome_mapM {φ : α → β} {ψ : γ → δ} {f : α → Except ParseError γ}
    {f' : β → Except ParseError δ} (hf : ∀ a, f' (φ a) = g.outcome ψ (f a)) (xs : List α) :
    (xs.map φ).mapM f' = g.outcome (List.map ψ) (xs.mapM f) := by
  induction xs with
  | nil => rfl
  | cons x xs ih =>
    rw [List.map_cons, List.mapM_cons, List.mapM_cons]
    exact outcome_bind (hf x) fun a => outcome_bind ih fun as => rfl

end Respelling

/-! ## Pieces -/

theorem ofList_map (f : Char → Char) (cs : List Char) :
    String.ofList (cs.map f) = (String.ofList cs).map f := by
  rw [← String.toList_inj, String.toList_map, String.toList_ofList, String.toList_ofList]

namespace Piece

variable (g : Respelling) (p : Piece)

/-- The piece with its characters respelled, moved on in the input. -/
def respell : Piece :=
  ⟨p.chars.map g.char, p.start + g.offset⟩

@[simp] theorem respell_chars : (p.respell g).chars = p.chars.map g.char := rfl

@[simp] theorem respell_length : (p.respell g).length = p.length := by
  rw [length, respell_chars, List.length_map, ← length]

@[simp] theorem respell_isEmpty : (p.respell g).isEmpty = p.isEmpty := by
  rw [isEmpty, respell_chars, List.isEmpty_map, ← isEmpty]

@[simp] theorem respell_text : (p.respell g).text = p.text.map g.char :=
  ofList_map g.char p.chars

theorem respell_byteOffset (i : Nat) : (p.respell g).byteOffset i = p.byteOffset i + g.offset := by
  rw [byteOffset_eq, byteOffset_eq, respell_chars, ← List.map_take, g.byteLength_map]
  simp only [respell]
  omega

theorem respell_slice (i j : Nat) : (p.respell g).slice i j = (p.slice i j).map g.char := by
  rw [slice, slice, respell_chars, ← List.map_drop, ← List.map_take]

@[simp] theorem respell_cut (i j : Nat) : (p.respell g).cut i j = (p.cut i j).respell g := by
  have hlen : (((p.slice i j).map g.char).takeWhile isBlank).length =
      ((p.slice i j).takeWhile isBlank).length := by
    rw [g.takeWhile_map isBlank_foldChar, List.length_map]
  simp only [cut, respell_slice, g.trim_map, respell_byteOffset, hlen]
  rfl

@[simp] theorem respell_rest (i : Nat) : (p.respell g).rest i = (p.rest i).respell g := by
  rw [rest, respell_length, respell_cut, ← rest]

@[simp] theorem respell_faultSpan (f : Fault) (i j : Nat) :
    (p.respell g).faultSpan f i j = (p.faultSpan f i j).respell g := by
  simp only [faultSpan, reportSpan, respell_byteOffset, respell_slice, ofList_map]
  rfl

@[simp] theorem respell_faultAt (f : Fault) (i : Nat) :
    (p.respell g).faultAt f i = (p.faultAt f i).respell g := by
  simp only [faultAt, reportAt, respell_byteOffset, respell_slice, ofList_map]
  rfl

@[simp] theorem respell_faultFrom (f : Fault) (i : Nat) :
    (p.respell g).faultFrom f i = (p.faultFrom f i).respell g := by
  rw [faultFrom, respell_length]
  exact p.respell_faultSpan g f i p.length

@[simp] theorem respell_faultWhole (f : Fault) :
    (p.respell g).faultWhole f = (p.faultWhole f).respell g :=
  p.respell_faultFrom g f 0

end Piece

/-! ## Outlines -/

namespace Place

variable (g : Respelling)

/-- The place in the respelled text; quotes stay. -/
def respell (p : Place) : Place :=
  { p with before := p.before.map g.char }

theorem respell_pass (p : Place) (c : Char) :
    (p.respell g).pass (g.char c) = (p.pass c).respell g := by
  have ho : g.char c = '(' ↔ c = '(' := g.char_eq_sign_iff (by decide) (by decide)
  have hc : g.char c = ')' ↔ c = ')' := g.char_eq_sign_iff (by decide) (by decide)
  have hq : (if Literal.isQuote c then Quoting.inside (g.char c) p.index else .outside) =
      if Literal.isQuote c then .inside c p.index else .outside := by
    split
    · rename_i h
      rw [g.char_of_rigid (rigid_of_isQuote h)]
    · rfl
  simp only [pass, respell, g.isQuote_char, ho, hc, hq, Option.map_some]

/-- One step, from a place whose literal, if any, is opened by a quote. -/
theorem respell_next {p : Place}
    (h : ∀ q b, p.quoting.mode = some (q, b) → Literal.isQuote q = true) (c : Char) :
    (p.respell g).next (g.char c) = (p.next c).respell g := by
  have hquoting : (p.respell g).quoting = p.quoting := rfl
  have hstay : ∀ quoting, (p.respell g).stay (g.char c) quoting = (p.stay c quoting).respell g :=
    fun _ => rfl
  unfold next
  rw [hquoting]
  cases hp : p.quoting with
  | outside => exact p.respell_pass g c
  | inside q i =>
    have hq := rigid_of_isQuote (h q true (by rw [hp]; rfl))
    simp only [g.char_eq_iff hq, hstay]
  | closed q i =>
    have hq := rigid_of_isQuote (h q false (by rw [hp]; rfl))
    simp only [g.char_eq_iff hq, hstay]
    split
    · rfl
    · exact p.respell_pass g c

theorem respell_advance {p : Place}
    (h : ∀ q b, p.quoting.mode = some (q, b) → Literal.isQuote q = true) (cs : List Char) :
    (p.respell g).advance (cs.map g.char) = (p.advance cs).respell g := by
  induction cs generalizing p with
  | nil => rfl
  | cons c cs ih =>
    rw [List.map_cons, advance_cons, advance_cons, p.respell_next g h, ih (proper_next h c)]

theorem respell_isOutside (p : Place) (c : Char) :
    (p.respell g).isOutside (g.char c) = p.isOutside c := by
  rw [isOutside, isOutside, g.isQuote_char]
  rfl

end Place

namespace Site

variable (g : Respelling) (s : Site)

/-- The site in the respelled text. -/
def respell : Site :=
  { s with before := s.before.map g.char, char := g.char s.char, after := s.after.map g.char }

@[simp] theorem respell_index : (s.respell g).index = s.index := rfl

@[simp] theorem respell_depth : (s.respell g).depth = s.depth := rfl

@[simp] theorem respell_char : (s.respell g).char = g.char s.char := rfl

@[simp] theorem respell_here : (s.respell g).here = s.here.map g.char := rfl

@[simp] theorem respell_followsBlank : (s.respell g).followsBlank = s.followsBlank := by
  simp only [followsBlank, respell]
  cases s.before with
  | none => rfl
  | some c => exact g.isBlank_char c

theorem respell_isTop {m : Char} (ha : m.isAlpha = false) (hb : isBlank m = false) :
    (s.respell g).isTop m = s.isTop m := by
  rw [Bool.eq_iff_iff]
  simp only [isTop, respell_depth, respell_char, Bool.and_eq_true, beq_iff_eq,
    g.char_eq_sign_iff ha hb]

@[simp] theorem respell_keyword? (k : Keyword) : (s.respell g).keyword? k = s.keyword? k := by
  rw [keyword?, keyword?, respell_followsBlank, respell_here, g.match?_map]

@[simp] theorem respell_topKeyword? (k : Keyword) :
    (s.respell g).topKeyword? k = s.topKeyword? k := by
  rw [topKeyword?, topKeyword?, respell_depth, respell_keyword?]

end Site

namespace Outline

variable (g : Respelling)

theorem sitesFrom_respell {p : Place}
    (h : ∀ q b, p.quoting.mode = some (q, b) → Literal.isQuote q = true) (cs : List Char) :
    sitesFrom (p.respell g) (cs.map g.char) = (sitesFrom p cs).map (Site.respell g) := by
  induction cs generalizing p with
  | nil => rfl
  | cons c r ih =>
    rw [List.map_cons, sitesFrom, sitesFrom, p.respell_isOutside, p.respell_next g h,
      ih (Place.proper_next h c)]
    split <;> rfl

/-- The outline of the respelled text: positions stay. -/
def respell (o : Outline) : Outline :=
  { o with sites := o.sites.map (Site.respell g) }

theorem respell_unexpectedClose? (o : Outline) :
    (o.respell g).unexpectedClose? = o.unexpectedClose?.map (Site.respell g) := by
  have h : (fun s : Site => s.isTop ')') ∘ Site.respell g = fun s => s.isTop ')' :=
    funext fun s => s.respell_isTop g (by decide) (by decide)
  rw [unexpectedClose?, unexpectedClose?, respell, List.find?_map, h]

end Outline

namespace Piece

variable (g : Respelling) (p : Piece)

@[simp] theorem respell_outlineFrom (first : Nat) :
    (p.respell g).outlineFrom first = (p.outlineFrom first).respell g := by
  have hstart : ∀ before : Option Char,
      Place.start first (before.map g.char) = (Place.start first before).respell g := fun _ => rfl
  have hproper :
      ∀ before : Option Char, ∀ q b, (Place.start first before).quoting.mode = some (q, b) →
      Literal.isQuote q = true := fun before => (Place.clear_start first before).proper
  have hbefore : (if first = 0 then none else (p.respell g).chars[first - 1]?) =
      (if first = 0 then none else p.chars[first - 1]?).map g.char := by
    split
    · rfl
    · rw [respell_chars, List.getElem?_map]
  simp only [outlineFrom, Outline.ofPlace]
  rw [hbefore, hstart, respell_chars, ← List.map_drop, Outline.sitesFrom_respell g (hproper _),
    Place.respell_advance g (hproper _)]
  rfl

@[simp] theorem respell_outline : (p.respell g).outline = p.outline.respell g :=
  p.respell_outlineFrom g 0

theorem respell_requireTerminated (o : Outline) :
    (p.respell g).requireTerminated (o.respell g) = g.outcome id (p.requireTerminated o) := by
  have ho : (o.respell g).unterminated? = o.unterminated? := rfl
  rw [requireTerminated, requireTerminated, ho]
  cases o.unterminated? with
  | none => rfl
  | some i => rw [g.outcome_error, ← respell_faultFrom]

theorem respell_requireClosed (o : Outline) :
    (p.respell g).requireClosed (o.respell g) = g.outcome id (p.requireClosed o) := by
  have ho : (o.respell g).unclosed? = o.unclosed? := rfl
  rw [requireClosed, requireClosed, ho]
  cases o.unclosed? with
  | none => rfl
  | some i => rw [g.outcome_error, ← respell_faultFrom]

theorem respell_requireOpened (o : Outline) :
    (p.respell g).requireOpened (o.respell g) = g.outcome id (p.requireOpened o) := by
  rw [requireOpened, requireOpened, o.respell_unexpectedClose?]
  cases o.unexpectedClose? with
  | none => rfl
  | some s => rw [g.outcome_error, ← respell_faultAt]; rfl

theorem respell_requireBalanced (o : Outline) :
    (p.respell g).requireBalanced (o.respell g) = g.outcome id (p.requireBalanced o) :=
  Respelling.outcome_bind (p.respell_requireOpened g o) fun _ =>
    Respelling.outcome_bind (p.respell_requireTerminated g o) fun _ => p.respell_requireClosed g o

variable {g}

/-- A search whose answers at a site are respelled gives the respelled answer. -/
theorem respell_search {α : Type} {f : Site → Option α} {φ : α → α}
    (hf : ∀ s, f (s.respell g) = (f s).map φ) (o : Outline) :
    (p.respell g).search (o.respell g) f = g.outcome (Option.map φ) (p.search o f) := by
  have hfind : (o.respell g).sites.findSome? f = (o.sites.findSome? f).map φ := by
    have e : f ∘ Site.respell g = fun s => (f s).map φ := funext hf
    rw [Outline.respell, List.findSome?_map, e, List.map_findSome?]
    rfl
  rw [search, search, hfind]
  cases o.sites.findSome? f with
  | some a => rfl
  | none => exact Respelling.outcome_bind (p.respell_requireTerminated g o) fun _ => rfl

/-- In particular, answers in positions stay. -/
theorem respell_search_eq {α : Type} {f : Site → Option α} (hf : ∀ s, f (s.respell g) = f s)
    (o : Outline) :
    (p.respell g).search (o.respell g) f = g.outcome id (p.search o f) := by
  have hf' : ∀ s, f (s.respell g) = (f s).map id := fun s => by rw [hf, Option.map_id_apply]
  have h := p.respell_search hf' o
  rwa [Option.map_id_fun] at h

end Piece

end TableQuery
