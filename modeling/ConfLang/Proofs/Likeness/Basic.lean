import ConfLang.Proofs.Progress.Forward

/-!
# Readings that do the same

A parser looks at the kinds of tokens and hands their places on.  So it does the same
in two states that differ in places only, or in anything else that it never looks at:
it takes as many tokens, ends in the same way, and what it gives differs just as much
as what it was given.

This file says so for any such difference.  A `Likeness` tells which states, spans,
tokens and trees are alike; it is a likeness because the operations on states keep
it and because alike parts make alike trees.  `Likeness.Alike` is then a statement
about two readings: from alike states both give a value, or both fail, and what they
give and the states they leave are alike again.  Its rules follow the steps that
readings are made of, and the files after this one apply them to all readings of the
library.

What is alike can depend on the state, but only in a way that lasts (`Lasting`).  With
the same reading on both sides a likeness is an invariant: everything a state holds
is alike to itself.

A parser never asks what a quoted text is, but it quotes such texts in what it reports.  So they
may differ, too, in states that are `muted`: there the likeness does not care any more for what
is reported.
-/

namespace ConfLang

/-- Two causes are alike if they quote alike spans, and are the same otherwise. -/
def Cause.Like (like : Span → Span → Prop) : Cause → Cause → Prop
  | .unclosed bracket opened found, cause =>
      ∃ opened', like opened opened' ∧ cause = .unclosed bracket opened' found
  | .missingEndif kind opened found, cause =>
      ∃ opened', like opened opened' ∧ cause = .missingEndif kind opened' found
  | .duplicateDeclaration name first, cause =>
      ∃ first', like first first' ∧ cause = .duplicateDeclaration name first'
  | cause, cause' => cause' = cause

theorem Cause.Like.imp {like like' : Span → Span → Prop}
    (h : ∀ span span', like span span' → like' span span') {cause cause' : Cause}
    (hlike : cause.Like like cause') : cause.Like like' cause' := by
  cases cause <;> simp only [Cause.Like] at hlike ⊢ <;>
    first | exact hlike | exact hlike.imp fun _ => And.imp_left (h _ _)

/-- Two kinds of tokens are alike if they are the same but for alike quoted texts. -/
inductive TokenKind.Like (like : String → String → Prop) : TokenKind → TokenKind → Prop
  | same (kind : TokenKind) : Like like kind kind
  | name {text text' : String} : like text text' → Like like (.name text true) (.name text' true)
  | string {text text' : String} : like text text' → Like like (.string text) (.string text')

/-- Whether a token is a quoted text. -/
def TokenKind.isQuoted : TokenKind → Bool
  | .name _ quoted => quoted
  | .string _ => true
  | _ => false

namespace TokenKind.Like

variable {like like' : String → String → Prop} {kind kind' : TokenKind}

theorem imp (h : ∀ text text', like text text' → like' text text') (hlike : Like like kind kind') :
    Like like' kind kind' := by
  cases hlike with
  | same kind => exact .same kind
  | name htext => exact .name (h _ _ htext)
  | string htext => exact .string (h _ _ htext)

/-- What is no quoted text is asked for alike. -/
theorem eq_iff (h : Like like kind kind') (other : TokenKind) (hother : other.isQuoted = false) :
    kind' = other ↔ kind = other := by
  cases h with
  | same kind => rfl
  | name _ | string _ =>
      constructor
      all_goals
        rintro rfl
        cases hother

end TokenKind.Like

/-! ## Likenesses -/

/-- Where quoted texts are alike only if they are the same, they are. -/
theorem Lasting.eq_of_quoted {text₁ text₂ : String} {s : State}
    (h : Lasting.sure (text₂ = text₁) s) : text₂ = text₁ ∨ Lasting.sure False s := .inl h

/-- What it takes for states, spans and tokens to be alike. -/
structure StateLikeness where
  /-- The states with a given nesting that are alike. -/
  state : Nesting → State → State → Prop
  span : Span → Span → Lasting
  /-- The spans that are alike in a message that quotes them. -/
  place : Span → Span → Lasting := span
  token : Token → Token → Lasting
  /-- The raw texts that may come. -/
  text : String → Prop
  quoted : String → String → Lasting := fun first second => .sure (second = first)
  /-- The fact that it does not count any more what is reported. -/
  muted : Lasting := .sure False
  quoted_eq : ∀ {text₁ text₂ s}, quoted text₁ text₂ s → text₂ = text₁ ∨ muted s := by
    exact Lasting.eq_of_quoted
  token_kind : ∀ {token₁ token₂ s}, token token₁ token₂ s →
    token₁.kind.Like (fun text₁ text₂ => quoted text₁ text₂ s) token₂.kind
  token_span : ∀ {token₁ token₂ s}, token token₁ token₂ s → span token₁.span token₂.span s
  token_place : ∀ {token₁ token₂ s}, token token₁ token₂ s → token₁.kind ≠ .endOfLine →
    place token₁.span token₂.span s
  place_span : ∀ {span₁ span₂ s}, place span₁ span₂ s → span span₁ span₂ s := by exact id
  span_through : ∀ {first₁ first₂ last₁ last₂ s}, span first₁ first₂ s → span last₁ last₂ s →
    span (first₁.through last₁) (first₂.through last₂) s
  span_origin : ∀ {span₁ span₂ s}, span span₁ span₂ s → span span₁.origin span₂.origin s
  text_empty : text ""
  nesting : ∀ {n s t}, state n s t → s.nesting = n ∧ t.nesting = n
  options : ∀ {n s t}, state n s t → t.options = s.options
  stopped : ∀ {n s t}, state n s t → t.stopped = s.stopped
  lookahead : ∀ {n s t}, state n s t → Lasting.all token s.lookahead t.lookahead s
  renest : ∀ {n s t} (m : Nesting), state n s t →
    state m { s with nesting := m } { t with nesting := m }
  note : ∀ {n s t} (event₁ event₂ : Event), state n s t →
    state n (s.note event₁) (t.note event₂)
  report : ∀ {n s t} {diagnostic₁ diagnostic₂ : Diagnostic}, state n s t →
    span diagnostic₁.span diagnostic₂.span s →
    diagnostic₁.cause.Like (fun span₁ span₂ => place span₁ span₂ s) diagnostic₂.cause ∨ muted s →
    diagnostic₂.severity = diagnostic₁.severity →
    state n (s.report diagnostic₁) (t.report diagnostic₂)
  /-- A warning on one side alone does not count where nothing counts. -/
  warning : ∀ {n s t} (diagnostic : Diagnostic), muted s → state n s t →
    diagnostic.isError = false → state n (s.report diagnostic) t ∧ state n s (t.report diagnostic) :=
    by exact fun _ hmuted => hmuted.elim
  scan : ∀ {n s t}, state n s t → state n s.scan.2 t.scan.2
  take : ∀ {n s t token₁ token₂ rest₁ rest₂}, state n s t → s.lookahead = token₁ :: rest₁ →
    t.lookahead = token₂ :: rest₂ → token₁.kind ≠ .endOfFile →
    state n (s.take token₁) (t.take token₂)
  takeRaw : ∀ {n s t}, state n s t → s.lookahead = [] →
    state n (s.takeRaw s.cursor.rawLine) (t.takeRaw t.cursor.rawLine) ∧
      t.cursor.rawLine.text = s.cursor.rawLine.text ∧ text s.cursor.rawLine.text ∧
      span s.cursor.rawLine.span t.cursor.rawLine.span (s.takeRaw s.cursor.rawLine)
  /-- It is known alike whether anything was taken in front of the tokens that were looked at. -/
  remaining : ∀ {n s t s' t'}, state n s t → state n s' t' → s.Precedes s' → t.Precedes t' →
    s.Looks → t.Looks → (s'.remaining < s.remaining ↔ t'.remaining < t.remaining)
  consumed : ∀ {n s t s' t'}, state n s t → state n s' t' →
    (s'.consumed = s.consumed ↔ t'.consumed = t.consumed)
  line : ∀ {n s t token₁ token₂}, state n s t → 0 < s.consumed → token token₁ token₂ s →
    (token₁.span.line = s.previous.line ↔ token₂.span.line = t.previous.line)

namespace StateLikeness

variable (L : StateLikeness)

/-- Two causes are alike, or it does not count any more whether they are. -/
def cause (first second : Cause) : Lasting where
  holds s := first.Like (fun span₁ span₂ => L.place span₁ span₂ s) second ∨ L.muted s
  lasts h := Or.imp (Cause.Like.imp fun _ _ => (L.place _ _).lasts h) (L.muted.lasts h)

/-- Two problems are alike if their places and causes are. -/
def problem (first second : Problem) : Lasting :=
  (L.span first.span second.span).and (L.cause first.cause second.cause)

/-- Where it counts what is reported, alike tokens are of the same kind. -/
theorem kind_eq {token₁ token₂ : Token} {s : State} (h : L.token token₁ token₂ s) :
    token₂.kind = token₁.kind ∨ L.muted s := by
  have hkinds := L.token_kind h
  generalize token₁.kind = kind₁, token₂.kind = kind₂ at hkinds ⊢
  cases hkinds with
  | same kind => exact .inl rfl
  | name htext => exact (L.quoted_eq htext).imp_left fun hsame => by rw [hsame]
  | string htext => exact (L.quoted_eq htext).imp_left fun hsame => by rw [hsame]

variable {α β γ δ σ : Type}

/-- Two states come later in the runs of two others. -/
structure Later (s t s' t' : State) : Prop where
  first : s.Precedes s'
  second : t.Precedes t'

namespace Later

variable {s t s' t' s'' t'' : State}

theorem refl (s t : State) : Later s t s t := ⟨.refl s, .refl t⟩

theorem trans (h : Later s t s' t') (h' : Later s' t' s'' t'') : Later s t s'' t'' :=
  ⟨h.first.trans h'.first, h.second.trans h'.second⟩

theorem grows (h : Later s t s' t') : s.Grows s' := h.first.toGrows

theorem renest (s t : State) (nesting : Nesting) :
    Later s t { s with nesting } { t with nesting } :=
  ⟨s.precedes_renest nesting, t.precedes_renest nesting⟩

end Later

/-- Two ends of readings are alike: both gave a value, or both failed. -/
def Ends (n : Nesting) (s t : State) (V : α → β → Lasting) :
    EStateM.Result Problem State α → EStateM.Result Problem State β → Prop
  | .ok a s', .ok b t' => L.state n s' t' ∧ Later s t s' t' ∧ V a b s'
  | .error p s', .error q t' => L.state n s' t' ∧ Later s t s' t' ∧ L.problem p q s'
  | _, _ => False

/-- From states that are related in some way, two readings do the same. -/
def AlikeFrom (R : State → State → Prop) (n : Nesting) (f : Reading α) (g : Reading β)
    (V : α → β → Lasting) : Prop :=
  ∀ s t, R s t → L.Ends n s t V (EStateM.run f s) (EStateM.run g t)

/-- From alike states with a lasting fact, two readings do the same. -/
def Alike (n : Nesting) (K : Lasting) (f : Reading α) (g : Reading β)
    (V : α → β → Lasting) : Prop :=
  L.AlikeFrom (fun s t => L.state n s t ∧ K s) n f g V

variable {L} {n : Nesting} {K : Lasting} {V : α → β → Lasting}

theorem Ends.imp {W : α → β → Lasting} {s t : State} {r₁ : EStateM.Result Problem State α}
    {r₂ : EStateM.Result Problem State β} (h : L.Ends n s t V r₁ r₂)
    (himp : ∀ a b s', s.Grows s' → V a b s' → W a b s') : L.Ends n s t W r₁ r₂ := by
  cases r₁ <;> cases r₂ <;> simp only [Ends] at h ⊢
  · exact ⟨h.1, h.2.1, himp _ _ _ h.2.1.grows h.2.2⟩
  · exact h

theorem Ends.from_earlier {s t s' t' : State} {r₁ : EStateM.Result Problem State α}
    {r₂ : EStateM.Result Problem State β} (h : L.Ends n s' t' V r₁ r₂) (hlater : Later s t s' t') :
    L.Ends n s t V r₁ r₂ := by
  cases r₁ <;> cases r₂ <;> simp only [Ends] at h ⊢
  · exact ⟨h.1, hlater.trans h.2.1, h.2.2⟩
  · exact ⟨h.1, hlater.trans h.2.1, h.2.2⟩

/-! ## Rules for the steps of readings -/

theorem Alike.weaken {f : Reading α} {g : Reading β} {K' : Lasting}
    {W : α → β → Lasting} (h : L.Alike n K f g V) (hknown : ∀ s, K' s → K s)
    (hvalue : ∀ a b s, K' s → V a b s → W a b s) : L.Alike n K' f g W := by
  intro s t ⟨hst, hs⟩
  exact (h s t ⟨hst, hknown s hs⟩).imp fun a b s' hgrows =>
    hvalue a b s' (K'.lasts hgrows hs)

/-- What is known of all states may be used to compare the two readings. -/
theorem Alike.of_known {f : Reading α} {g : Reading β} {P : Prop}
    (hfact : ∀ s, K s → P) (h : P → L.Alike n K f g V) :
    L.Alike n K f g V :=
  fun s t hst => h (hfact s hst.2) s t hst

theorem alike_pure {a : α} {b : β} (h : ∀ s, K s → V a b s) :
    L.Alike n K (pure a) (pure b) V :=
  fun s t ⟨hst, hs⟩ => ⟨hst, .refl s t, h s hs⟩

/-- What is read first does not need to start from alike states.  What is read next may use that
it begins where the first reading ended. -/
theorem AlikeFrom.bind_run {R : State → State → Prop} {f : Reading α} {g : Reading β}
    {k : α → Reading γ} {l : β → Reading δ} {W : γ → δ → Lasting}
    (h : L.AlikeFrom R n f g V)
    (hrest : ∀ a b, L.AlikeFrom (fun s t => (L.state n s t ∧ V a b s) ∧
      ∃ start other, R start other ∧ EStateM.run f start = .ok a s) n (k a) (l b) W) :
    L.AlikeFrom R n (f >>= k) (g >>= l) W := by
  intro s t hst
  have hends := h s t hst
  rw [EStateM.run_bind, EStateM.run_bind]
  cases hf : EStateM.run f s <;> cases hg : EStateM.run g t <;>
    simp only [hf, hg, Ends] at hends ⊢
  · rename_i a s' b t'
    exact (hrest a b s' t' ⟨⟨hends.1, hends.2.2⟩, s, t, hst, hf⟩).from_earlier hends.2.1
  · exact hends

theorem AlikeFrom.bind {R : State → State → Prop} {f : Reading α} {g : Reading β}
    {k : α → Reading γ} {l : β → Reading δ} {W : γ → δ → Lasting}
    (h : L.AlikeFrom R n f g V)
    (hrest : ∀ a b, L.Alike n (V a b) (k a) (l b) W) :
    L.AlikeFrom R n (f >>= k) (g >>= l) W :=
  h.bind_run fun a b s t hst => hrest a b s t hst.1

/-- What is known before a reading is known behind it. -/
theorem Alike.remember {R : State → State → Prop} {f : Reading α} {g : Reading β}
    (h : L.Alike n K f g V) (hstate : ∀ s t, R s t → L.state n s t ∧ K s) :
    L.AlikeFrom R n f g fun a b => K.and (V a b) := fun s t hst =>
  (h s t (hstate s t hst)).imp fun _ _ _ hgrows hv => ⟨K.lasts hgrows (hstate s t hst).2, hv⟩

theorem Alike.bind {f : Reading α} {g : Reading β} {k : α → Reading γ} {l : β → Reading δ}
    {W : γ → δ → Lasting} (h : L.Alike n K f g V)
    (hrest : ∀ a b, L.Alike n (K.and (V a b)) (k a) (l b) W) :
    L.Alike n K (f >>= k) (g >>= l) W :=
  AlikeFrom.bind (h.remember fun _ _ hst => hst) hrest

/-- Nothing is known of a value but that it is the same on both sides. -/
def same (first second : α) : Lasting := .sure (second = first)

theorem Alike.bind_same {f g : Reading α} {k l : α → Reading β} {V : β → β → Lasting}
    (h : L.Alike n K f g same) (hrest : ∀ a, L.Alike n K (k a) (l a) V) :
    L.Alike n K (f >>= k) (g >>= l) V := by
  refine h.bind fun a b => .of_known (P := b = a) (fun s hs => hs.2) ?_
  rintro rfl
  exact (hrest _).weaken (fun s hs => hs.1) fun _ _ _ _ hv => hv

theorem AlikeFrom.map {R : State → State → Prop} {f : Reading α} {g : Reading β}
    {k : α → γ} {l : β → δ} {W : γ → δ → Lasting} (h : L.AlikeFrom R n f g V)
    (hmap : ∀ a b s, V a b s → W (k a) (l b) s) :
    L.AlikeFrom R n (k <$> f) (l <$> g) W := by
  rw [← bind_pure_comp, ← bind_pure_comp]
  exact h.bind fun a b => alike_pure fun s hs => hmap a b s hs

theorem Alike.map {f : Reading α} {g : Reading β} {k : α → γ} {l : β → δ}
    {W : γ → δ → Lasting} (h : L.Alike n K f g V)
    (hmap : ∀ a b s, V a b s → W (k a) (l b) s) :
    L.Alike n K (k <$> f) (l <$> g) W :=
  AlikeFrom.map h hmap

/-- The states themselves can be read, as long as what follows uses what is known of
alike states. -/
theorem alike_get {k : State → Reading α} {l : State → Reading β}
    (h : ∀ s t, L.state n s t → K s →
      L.Alike n (K.and (.since s)) (k s) (l t) V) :
    L.Alike n K (get >>= k) (get >>= l) V :=
  fun s t ⟨hst, hs⟩ => h s t hst hs s t ⟨hst, hs, .refl s⟩

theorem alike_modify {f g : State → State}
    (h : ∀ s t, L.state n s t → K s → L.state n (f s) (g t) ∧ Later s t (f s) (g t)) :
    L.Alike n K (modify f) (modify g) (fun _ _ => .sure True) := by
  intro s t ⟨hst, hs⟩
  exact ⟨(h s t hst hs).1, (h s t hst hs).2, trivial⟩

theorem alike_fail {cause₁ cause₂ : Cause} {span₁ span₂ : Span}
    (hspan : ∀ s, K s → L.span span₁ span₂ s) (hcause : ∀ s, K s → L.cause cause₁ cause₂ s) :
    L.Alike n K (Reading.fail cause₁ span₁ : Reading α) (Reading.fail cause₂ span₂ : Reading β)
      V :=
  fun s t ⟨hst, hs⟩ => ⟨hst, .refl s t, hspan s hs, hcause s hs⟩

variable (L) in
/-- How the results of attempts are alike. -/
def attempted (V : α → β → Lasting) : Except Problem α → Except Problem β → Lasting
  | .ok a, .ok b => V a b
  | .error p, .error q => L.problem p q
  | _, _ => .sure False

theorem AlikeFrom.attempt {R : State → State → Prop} {f : Reading α} {g : Reading β}
    (h : L.AlikeFrom R n f g V) :
    L.AlikeFrom R n (Reading.attempt f) (Reading.attempt g) (L.attempted V) := by
  intro s t hst
  have hends := h s t hst
  rw [Reading.run_attempt, Reading.run_attempt]
  cases hf : EStateM.run f s <;> cases hg : EStateM.run g t <;>
    simp only [hf, hg, Ends] at hends ⊢
  · exact hends
  · exact hends

theorem Alike.attempt {f : Reading α} {g : Reading β} (h : L.Alike n K f g V) :
    L.Alike n K (Reading.attempt f) (Reading.attempt g) (L.attempted V) :=
  AlikeFrom.attempt h

theorem alike_note (event₁ event₂ : Event) : L.Alike n K (Reading.note event₁)
    (Reading.note event₂) (fun _ _ => .sure True) :=
  alike_modify fun s t hst _ => ⟨L.note _ _ hst, s.precedes_note _, t.precedes_note _⟩

theorem alike_report {diagnostic₁ diagnostic₂ : Diagnostic}
    (h : ∀ s, K s → L.problem diagnostic₁.toProblem diagnostic₂.toProblem s)
    (hseverity : diagnostic₂.severity = diagnostic₁.severity) :
    L.Alike n K (Reading.report diagnostic₁) (Reading.report diagnostic₂)
      (fun _ _ => .sure True) :=
  alike_modify fun s t hst hs =>
    ⟨L.report hst (h s hs).1 (h s hs).2 hseverity, s.precedes_report _, t.precedes_report _⟩

/-- A reading between two changes, of which the second one restores the nesting. -/
theorem AlikeFrom.between {outside inside : State → State → Prop} {m : Nesting}
    {opening closing : State → State} {f : Reading α} {g : Reading β}
    (hopening : ∀ s t, outside s t → inside (opening s) (opening t) ∧
      Later s t (opening s) (opening t))
    (hclosing : ∀ s : State, s.nesting = m → closing s = { s with nesting := n })
    (h : L.AlikeFrom inside m f g V) :
    L.AlikeFrom outside n (Reading.between opening closing f) (Reading.between opening closing g)
      V := by
  intro s t hst
  obtain ⟨hinside, hlater⟩ := hopening s t hst
  have hends := h _ _ hinside
  rw [Reading.run_between, Reading.run_between]
  cases hf : EStateM.run f (opening s) <;> cases hg : EStateM.run g (opening t) <;>
    simp only [hf, hg, Ends] at hends ⊢
  all_goals
    obtain ⟨hafter, hafterLater, hlike⟩ := hends
    rw [hclosing _ (L.nesting hafter).1, hclosing _ (L.nesting hafter).2]
    refine ⟨L.renest n hafter, (hlater.trans hafterLater).trans (.renest _ _ n), ?_⟩
  · exact (V _ _).lasts (State.grows_renest _ n) hlike
  · exact (L.problem _ _).lasts (State.grows_renest _ n) hlike

theorem Alike.between {m : Nesting} {opening closing : State → State} {f : Reading α}
    {g : Reading β} (hopening : ∀ s : State, s.nesting = n → opening s = { s with nesting := m })
    (hclosing : ∀ s : State, s.nesting = m → closing s = { s with nesting := n })
    (h : L.Alike m K f g V) :
    L.Alike n K (Reading.between opening closing f) (Reading.between opening closing g)
      V := by
  refine AlikeFrom.between (fun s t ⟨hst, hs⟩ => ?_) hclosing h
  rw [hopening s (L.nesting hst).1, hopening t (L.nesting hst).2]
  exact ⟨⟨L.renest m hst, K.lasts (s.grows_renest m) hs⟩, .renest s t m⟩

end StateLikeness

end ConfLang
