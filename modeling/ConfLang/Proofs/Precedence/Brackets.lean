import ConfLang.Proofs.Grammar.Language

/-!
# Brackets and rows

What is outside of all brackets decides how some tokens are taken apart.  `Bracketed` says of a list
of tokens that the brackets in it are opened before they are closed, and of which kinds the tokens
outside of them are.  A prefix of such a list closes no more brackets than it opens, and one that
closes all of them is followed by a token of one of those kinds (`Bracketed.split`).

So a list can be cut at the commas that are outside of brackets.  A `Row` has at least one comma
between two things, and any number behind the last one.  If the things in it contain no comma
outside of brackets, it is the row of one list only (`Row.unique`).
-/

namespace ConfLang

/-! ## Brackets -/

/-- How many brackets are open behind a token that were not in front of it. -/
def TokenKind.rise : TokenKind → Int
  | symbol .openParen | symbol .openBracket => 1
  | symbol .closeParen | symbol .closeBracket => -1
  | _ => 0

namespace Grammar

/-- How many brackets are opened by some tokens and not closed. -/
def rise : List Token → Int
  | [] => 0
  | token :: rest => token.kind.rise + rise rest

@[simp] theorem rise_nil : rise [] = 0 := rfl

@[simp] theorem rise_cons (token : Token) (ts : List Token) :
    rise (token :: ts) = token.kind.rise + rise ts := rfl

@[simp] theorem rise_append (ts ts' : List Token) : rise (ts ++ ts') = rise ts + rise ts' := by
  induction ts with
  | nil => simp
  | cons token rest ih => rw [List.cons_append, rise_cons, rise_cons, ih, Int.add_assoc]

/-- Two fronts of some tokens are the same if neither goes on behind the end of the other. -/
theorem eq_of_fronts {first first' tail tail' : List Token} (hts : first ++ tail = first' ++ tail')
    (hlonger : ∀ token more, first' = first ++ token :: more → tail = token :: more ++ tail' →
      False)
    (hshorter : ∀ token more, first = first' ++ token :: more → tail' = token :: more ++ tail →
      False) : first = first' ∧ tail = tail' := by
  rcases List.append_eq_append_iff.mp hts with ⟨more, hfirst, htail⟩ | ⟨more, hfirst, htail⟩
  all_goals cases more with
    | nil => rw [hfirst, htail, List.append_nil, List.nil_append]; exact ⟨rfl, rfl⟩
    | cons token more => ?_
  · exact (hlonger token more hfirst htail).elim
  · exact (hshorter token more hfirst htail).elim

/-- All brackets are closed that are opened, and outside of them there are only tokens of some
kinds. -/
inductive Bracketed : (TokenKind → Prop) → List Token → Prop
  | nil {bare} : Bracketed bare []
  | bare {bare token ts} : token.kind.rise = 0 → bare token.kind → Bracketed bare ts →
    Bracketed bare (token :: ts)
  | brackets {bare opened close inside ts} : opened.kind.rise = 1 → close.kind.rise = -1 →
    Bracketed (fun _ => True) inside → Bracketed bare ts →
    Bracketed bare (opened :: inside ++ close :: ts)

namespace Bracketed

variable {bare bare' : TokenKind → Prop} {ts ts' : List Token}

theorem append (h : Bracketed bare ts) (h' : Bracketed bare ts') : Bracketed bare (ts ++ ts') := by
  induction h with
  | nil => exact h'
  | bare hrise hbare _ ih => exact .bare hrise hbare (ih h')
  | brackets hopened hclose hinside _ _ ih =>
      rw [List.append_assoc]
      exact .brackets hopened hclose hinside (ih h')

theorem imp (h : Bracketed bare ts) (himp : ∀ kind, bare kind → bare' kind) :
    Bracketed bare' ts := by
  induction h with
  | nil => exact .nil
  | bare hrise hbare _ ih => exact .bare hrise (himp _ hbare) (ih himp)
  | brackets hopened hclose hinside _ _ ih => exact .brackets hopened hclose hinside (ih himp)

theorem rise_eq (h : Bracketed bare ts) : rise ts = 0 := by
  induction h with
  | nil => rfl
  | bare hrise _ _ ih => simp [hrise, ih]
  | brackets hopened hclose _ _ ihinside ih => simp [hopened, hclose, ihinside, ih]

/-- No prefix closes more brackets than it opens.  Where it has closed all that it has opened, the
token behind it is outside of brackets. -/
theorem split (h : Bracketed bare ts) {before behind : List Token} (hts : ts = before ++ behind) :
    0 ≤ rise before ∧ (rise before = 0 → ∀ token rest, behind = token :: rest →
      token.kind.rise = 0 → bare token.kind) := by
  induction h generalizing before behind with
  | nil =>
      obtain ⟨rfl, rfl⟩ := List.append_eq_nil_iff.mp hts.symm
      simp
  | @bare bare first ts hrise hbare _ ih =>
      rcases List.cons_eq_append_iff.mp hts with ⟨rfl, rfl⟩ | ⟨before', rfl, rfl⟩
      · refine ⟨Int.le_refl 0, ?_⟩
        rintro - token rest ⟨⟩ -
        exact hbare
      · obtain ⟨hle, hnext⟩ := ih rfl
        rw [rise_cons, hrise, Int.zero_add]
        exact ⟨hle, hnext⟩
  | @brackets bare opened close inside ts hopened hclose hinside _ ihinside ih =>
      rw [List.cons_append] at hts
      rcases List.cons_eq_append_iff.mp hts with ⟨rfl, rfl⟩ | ⟨before', rfl, hrest⟩
      · refine ⟨Int.le_refl 0, ?_⟩
        rintro - token rest ⟨⟩ hrise
        omega
      rw [rise_cons, hopened]
      rcases List.append_eq_append_iff.mp hrest with ⟨more, rfl, hmore⟩ | ⟨more, hmore, rfl⟩
      · -- the prefix ends behind the inside of the brackets
        rcases List.cons_eq_append_iff.mp hmore with ⟨rfl, rfl⟩ | ⟨before', rfl, rfl⟩
        · rw [List.append_nil, hinside.rise_eq]
          exact ⟨by omega, by omega⟩
        · obtain ⟨hle, hnext⟩ := ih rfl
          rw [rise_append, rise_cons, hinside.rise_eq, hclose]
          exact ⟨by omega, fun hrise => hnext (by omega)⟩
      · -- it ends inside, with one bracket open that it does not close
        obtain ⟨hle, -⟩ := ihinside hmore
        exact ⟨by omega, by omega⟩

theorem rise_nonneg (h : Bracketed bare (ts ++ ts')) : 0 ≤ rise ts :=
  (h.split rfl).1

/-- Behind a prefix that closes all its brackets, a token that is no bracket is outside. -/
theorem next {token : Token} (h : Bracketed bare (ts ++ token :: ts')) (hrise : rise ts = 0)
    (htoken : token.kind.rise = 0) : bare token.kind :=
  (h.split rfl).2 hrise token ts' rfl htoken

end Bracketed

/-! ## Rows -/

variable {α : Type} {item item' : Language α} {ts : List Token} {as as' : List α}

/-- Things with commas between them, and any number of commas behind the last. -/
inductive Row (item : Language α) : Language (List α) where
  | nil : Row item [] []
  | cons {first commas rest a as} : item first a →
    (∀ token ∈ commas, token.kind = .symbol .comma) → (commas = [] → as = []) →
    Row item rest as → Row item (first ++ commas ++ rest) (a :: as)

theorem bracketed_commas {commas : List Token} {bare : TokenKind → Prop}
    (h : ∀ token ∈ commas, token.kind = .symbol .comma) (hbare : bare (.symbol .comma)) :
    Bracketed bare commas := by
  induction commas with
  | nil => exact .nil
  | cons first rest ih =>
      rw [List.forall_mem_cons] at h
      exact .bare (by rw [h.1]; rfl) (h.1 ▸ hbare) (ih h.2)

theorem Row.bracketed (h : Row item ts as)
    (hitem : ∀ a ∈ as, ∀ ts, item ts a → Bracketed (fun _ => True) ts) :
    Bracketed (fun _ => True) ts := by
  induction h with
  | nil => exact .nil
  | cons h hcommas _ _ ih =>
      rw [List.forall_mem_cons] at hitem
      exact ((hitem.1 _ h).append (bracketed_commas hcommas trivial)).append (ih hitem.2)

theorem Row.imp (h : Row item ts as) (himp : ∀ a ∈ as, ∀ ts, item ts a → item' ts a) :
    Row item' ts as := by
  induction h with
  | nil => exact .nil
  | cons h hcommas hlast _ ih =>
      rw [List.forall_mem_cons] at himp
      exact .cons (himp.1 _ h) hcommas hlast (ih himp.2)

/-- Whatever is in a row has tokens of its own. -/
theorem Row.exists_of_mem (h : Row item ts as) {a : α} (hmem : a ∈ as) : ∃ ts, item ts a := by
  induction h with
  | nil => cases hmem
  | cons h _ _ _ ih =>
      rcases List.mem_cons.mp hmem with rfl | hmem
      · exact ⟨_, h⟩
      · exact ih hmem

/-- What stands in a row has no comma outside of brackets, and does not begin with one. -/
structure Separable (item : Language α) : Prop where
  bracketed : ∀ {ts a}, item ts a → Bracketed (· ≠ .symbol .comma) ts
  begins : ∀ {ts a}, item ts a → ∃ token rest, ts = token :: rest ∧ token.kind ≠ .symbol .comma

/-- There is nothing, or a comma comes first. -/
def AtComma (ts : List Token) : Prop :=
  ∀ token ∈ ts.head?, token.kind = .symbol .comma

theorem Separable.not_longer (hitem : Separable item) {first first' more rest : List Token}
    {token : Token} {a a' : α} (h : item first a) (h' : item first' a')
    (hfirst : first' = first ++ token :: more) (hcomma : AtComma (token :: more ++ rest)) :
    False := by
  subst hfirst
  have hkind : token.kind = .symbol .comma := hcomma token rfl
  exact (hitem.bracketed h').next (hitem.bracketed h).rise_eq (by rw [hkind]; rfl) hkind

/-- Something in a row ends in front of the first comma outside of brackets. -/
theorem Separable.unique (hitem : Separable item) {first first' tail tail' : List Token} {a a' : α}
    (h : item first a) (h' : item first' a') (htail : AtComma tail) (htail' : AtComma tail')
    (hts : first ++ tail = first' ++ tail') : first = first' ∧ tail = tail' := by
  refine eq_of_fronts hts (fun token more hfirst hrest => ?_) fun token more hfirst hrest => ?_
  · exact hitem.not_longer h h' hfirst (hrest ▸ htail)
  · exact hitem.not_longer h' h hfirst (hrest ▸ htail')

theorem Row.not_comma (hitem : Separable item) (h : Row item ts as) :
    ∀ token ∈ ts.head?, token.kind ≠ .symbol .comma := by
  cases h with
  | nil => simp
  | cons h =>
      obtain ⟨token, rest, rfl, hkind⟩ := hitem.begins h
      rintro _ ⟨⟩
      exact hkind

/-- All commas in front of a row that does not begin with one. -/
theorem takeWhile_commas {commas rest : List Token}
    (hcommas : ∀ token ∈ commas, token.kind = .symbol .comma)
    (hrest : ∀ token ∈ rest.head?, token.kind ≠ .symbol .comma) :
    (commas ++ rest).takeWhile (·.kind = .symbol .comma) = commas := by
  rw [List.takeWhile_append_of_pos (by simpa using hcommas)]
  cases rest with
  | nil => simp
  | cons token rest => simp [hrest token rfl]

/-- Behind something in a row there is a comma, or nothing. -/
theorem atComma_commas {commas rest : List Token}
    (hcommas : ∀ token ∈ commas, token.kind = .symbol .comma) (hlast : commas = [] → as = [])
    (hrest : Row item rest as) : AtComma (commas ++ rest) := by
  cases commas with
  | nil =>
      obtain rfl := hlast rfl
      cases hrest
      simp [AtComma]
  | cons token commas =>
      rintro _ ⟨⟩
      exact hcommas token List.mem_cons_self

theorem Row.unique (hitem : Separable item) (h : Row item ts as) (h' : Row item ts as')
    (hunique : ∀ a ∈ as, ∀ ts a', item ts a → item ts a' → a = a') : as = as' := by
  induction h generalizing as' with
  | nil =>
      generalize hts : ([] : List Token) = ts at h'
      cases h' with
      | nil => rfl
      | cons h =>
          obtain ⟨token, more, rfl, -⟩ := hitem.begins h
          cases hts
  | @cons first commas rest a as h hcommas hlast hrest ih =>
      generalize hts : first ++ commas ++ rest = ts at h'
      cases h' with
      | nil =>
          obtain ⟨token, more, rfl, -⟩ := hitem.begins h
          cases hts
      | @cons first' commas' rest' a' as' h' hcommas' hlast' hrest' =>
          rw [List.append_assoc, List.append_assoc] at hts
          obtain ⟨rfl, htail⟩ := hitem.unique h h' (atComma_commas hcommas hlast hrest)
            (atComma_commas hcommas' hlast' hrest') hts
          have hsame : commas = commas' := by
            rw [← takeWhile_commas hcommas (hrest.not_comma hitem), htail,
              takeWhile_commas hcommas' (hrest'.not_comma hitem)]
          subst hsame
          obtain rfl := List.append_cancel_left htail
          rw [List.forall_mem_cons] at hunique
          rw [hunique.1 _ a' h h', ih hrest' hunique.2]

end Grammar

end ConfLang
