import ConfLang.Proofs.Recovery.Body

/-!
# What is counted among skipped tokens

Skipping counts two kinds of pairs: braces, and conditional directive blocks with the marks that
close them.  A count never falls below zero, so a token that closes what is not open is not noticed.
Skipping ends in front of such a token, unless the token is skipped by force in front of all others.

`counted` leaves such a first token out.  Of the other ones each count is exact: it is the number of
tokens that open something, less the number of those that close it (`Skipping.Passes.exact`).  So
no front of them closes more than it opens, and no mark is among them but inside of a block
(`Skipping.Passes.inside`).
-/

namespace ConfLang

/-! ## Pairs -/

/-- What is counted while tokens are skipped. -/
inductive Pairing where
  | braces
  | chains

namespace Pairing

/-- The tokens that open something. -/
def opens : Pairing → TokenKind → Bool
  | braces, kind => kind = .symbol .openBrace
  | chains, kind => kind.isOpener

/-- The tokens that close what was opened last. -/
def closes : Pairing → TokenKind → Bool
  | braces, kind => kind = .symbol .closeBrace
  | chains, kind => kind = .mark .endif

/-- The tokens that end a body inside of what is open.  A body of a conditional directive block ends
in front of each mark of the block. -/
def ends : Pairing → TokenKind → Bool
  | braces, .symbol sign => sign = .closeBrace
  | chains, .mark _ => true
  | _, _ => false

/-- How many are open behind the tokens that were skipped. -/
def count : Pairing → Skipping → Nat
  | braces => Skipping.braces
  | chains => Skipping.chains

/-- How many are opened by some tokens. -/
def opened (pairing : Pairing) (ts : List Token) : Nat :=
  ts.countP (pairing.opens ·.kind)

/-- How many are closed by some tokens. -/
def closed (pairing : Pairing) (ts : List Token) : Nat :=
  ts.countP (pairing.closes ·.kind)

/-- Each token that ends a body stands inside of something that the tokens in front of it open. -/
def Inside (pairing : Pairing) (ts : List Token) : Prop :=
  ∀ before token rest, ts = before ++ token :: rest → pairing.ends token.kind = true →
    pairing.closed before < pairing.opened before

variable {pairing : Pairing} {kind : TokenKind} {token : Token} {ts before : List Token}

theorem ends_of_closes (h : pairing.closes kind = true) : pairing.ends kind = true := by
  cases pairing <;> simp_all [closes, ends]

theorem closesBody_of_ends (h : pairing.ends kind = true) : kind.closesBody = true := by
  cases pairing <;> cases kind <;> simp_all [ends, TokenKind.closesBody]

/-- A token that closes a body of another kind does not matter. -/
theorem of_closesBody (hclose : kind.closesBody = true) (hends : pairing.ends kind = false) :
    pairing.opens kind = false ∧ pairing.closes kind = false := by
  cases pairing <;> cases kind <;>
    simp_all [ends, opens, closes, TokenKind.closesBody, TokenKind.isOpener]

/-! ## Fronts -/

/-- No front closes more than it opens. -/
theorem Inside.closed_le (h : pairing.Inside ts) (hbefore : before <+: ts) :
    pairing.closed before ≤ pairing.opened before := by
  obtain ⟨rest, rfl⟩ := hbefore
  induction before using List.reverseRecOn generalizing rest with
  | nil => exact Nat.le_refl 0
  | append_singleton before token ih =>
      have hle := ih (token :: rest) (by simpa using h)
      have hless := h before token rest (by simp)
      simp only [closed, opened, List.countP_append, List.countP_singleton] at hle hless ⊢
      by_cases hcloses : pairing.closes token.kind = true
      · have := hless (ends_of_closes hcloses)
        rw [if_pos hcloses]
        omega
      · rw [if_neg hcloses]
        omega

theorem Inside.append {more : List Token} (h : pairing.Inside ts) (hmore : pairing.Inside more) :
    pairing.Inside (ts ++ more) := by
  intro before token rest hsplit hends
  rcases List.append_eq_append_iff.mp hsplit with ⟨before', rfl, hrest⟩ | ⟨rest', rfl, hrest⟩
  · -- the token is one of the last ones, so all of the first ones are in front of it
    have hle := h.closed_le (List.prefix_refl ts)
    have hless := hmore before' token rest hrest hends
    simp only [closed, opened, List.countP_append] at hle hless ⊢
    omega
  · cases rest' with
    | nil =>
        have hless := hmore [] token rest (by simpa using hrest.symm) hends
        exact absurd hless (Nat.lt_irrefl 0)
    | cons first rest' =>
        obtain ⟨rfl, -⟩ := List.cons.inj hrest
        exact h before token rest' rfl hends

theorem Inside.cons (h : pairing.Inside ts) (hclose : token.kind.closesBody = true)
    (hends : pairing.ends token.kind = false) : pairing.Inside (token :: ts) := by
  intro before other rest hsplit hother
  obtain ⟨rfl, hrest⟩ | ⟨before', rfl, hrest⟩ := List.cons_eq_append_iff.mp hsplit
  · obtain ⟨rfl, -⟩ := List.cons.inj hrest
    exact absurd hother (by simp [hends])
  · obtain ⟨hopens, hcloses⟩ := of_closesBody hclose hends
    have hless := h before' other rest hrest hother
    simpa [closed, opened, hopens, hcloses] using hless

/-! ## Counts -/

/-- Unless a count has nothing to take away from, it goes up and down with each token. -/
theorem count_skip {skipping : Skipping}
    (h : pairing.closes kind = true → 0 < pairing.count skipping) :
    pairing.count (skipping.skip kind) + (if pairing.closes kind then 1 else 0) =
      pairing.count skipping + (if pairing.opens kind then 1 else 0) := by
  cases pairing <;> cases kind with
  | symbol sign =>
      cases sign <;> simp_all [closes, opens, count, Skipping.skip, TokenKind.isOpener] <;> omega
  | mark which =>
      cases which <;> simp_all [closes, opens, count, Skipping.skip, TokenKind.isOpener] <;> omega
  | _ => simp [closes, opens, count, Skipping.skip, TokenKind.isOpener]

/-- In front of a token that ends a body, skipping goes on only inside of something. -/
theorem stopsAt_of_ends {skipping : Skipping} {previous : Span}
    (h : pairing.ends token.kind = true) :
    skipping.stopsAt previous token = (pairing.count skipping == 0) := by
  obtain ⟨kind, span⟩ := token
  cases pairing <;> cases kind <;> simp_all [ends, count, Skipping.stopsAt]

end Pairing

/-- The skipped tokens that count.  If the first one is skipped by force, it does not count where it
closes a body. -/
def counted (forced : Bool) : List Token → List Token
  | [] => []
  | token :: rest => if forced && token.kind.closesBody then rest else token :: rest

section Counted

variable {pairing : Pairing} {forced : Bool} {token : Token} {ts before rest : List Token}

@[simp] theorem counted_false : counted false ts = ts := by
  cases ts <;> rfl

/-- What counts of a front is a front of what counts. -/
theorem exists_of_counted (h : counted forced ts = before ++ token :: rest) :
    ∃ front, ts = front ++ token :: rest ∧ counted forced front = before ∧
      (forced = true → front = [] → token.kind.closesBody = false) := by
  cases ts with
  | nil => exact absurd h (by simp [counted])
  | cons first more =>
      rw [counted] at h
      split at h
      · rename_i hleft
        exact ⟨first :: before, by rw [h, List.cons_append], by rw [counted, if_pos hleft], by simp⟩
      · rename_i hkept
        refine ⟨before, h, ?_, fun hforced hnil => ?_⟩
        · cases before with
          | nil => rfl
          | cons first' before =>
              obtain ⟨rfl, -⟩ := List.cons.inj h
              rw [counted, if_neg hkept]
        · subst hnil
          obtain ⟨rfl, -⟩ := List.cons.inj h
          simpa [hforced] using hkept

/-- If the first token ends no body of a kind, all tokens count for that kind. -/
theorem Pairing.Inside.of_counted (h : pairing.Inside (counted forced ts))
    (hfirst : forced = true → ∀ token rest, ts = token :: rest → pairing.ends token.kind = false) :
    pairing.Inside ts := by
  cases ts with
  | nil => exact h
  | cons token rest =>
      rw [counted] at h
      split at h
      · rename_i hleft
        rw [Bool.and_eq_true] at hleft
        exact h.cons hleft.2 (hfirst hleft.1 token rest rfl)
      · exact h

end Counted

namespace Skipping

/-! ## Skipping goes on -/

/-- What is counted behind some more tokens. -/
def after (skipping : Skipping) (ts : List Token) : Skipping :=
  ts.foldl (fun skipping token => skipping.skip token.kind) skipping

/-- Skipping ends in front of none of some tokens, of which the first one follows a place. -/
inductive Passes : Skipping → Span → List Token → Prop
  | nil {skipping previous} : Passes skipping previous []
  | cons {skipping previous token rest} :
    skipping.forced = true ∨ skipping.stopsAt previous token = false →
    Passes (skipping.skip token.kind) token.span rest → Passes skipping previous (token :: rest)

/-- The place of the last of some tokens, or else the place in front of them. -/
def lastPlace (previous : Span) (ts : List Token) : Span :=
  (ts.map Token.span).getLastD previous

variable {skipping : Skipping} {previous : Span} {pairing : Pairing} {forced : Bool} {token : Token}
  {ts before rest : List Token}

@[simp] theorem after_nil : skipping.after [] = skipping := rfl

@[simp] theorem after_cons :
    skipping.after (token :: ts) = (skipping.skip token.kind).after ts := rfl

@[simp] theorem lastPlace_cons : lastPlace previous (token :: ts) = lastPlace token.span ts := by
  rw [lastPlace, lastPlace, List.map_cons, List.getLastD_cons]

/-- Only the first token is skipped by force. -/
theorem forced_after (hforced : skipping.forced = false) : (skipping.after ts).forced = false := by
  induction ts generalizing skipping with
  | nil => exact hforced
  | cons token rest ih => exact ih (skipping.forced_skip token.kind)

theorem eq_nil_of_forced_after (h : (skipping.after ts).forced = true) : ts = [] := by
  cases ts with
  | nil => rfl
  | cons token rest =>
      rw [after_cons, forced_after (forced_skip _ _)] at h
      cases h

/-- Skipping goes on in front of each token behind those that were skipped before. -/
theorem Passes.goesOn (h : skipping.Passes previous (before ++ token :: rest)) :
    (skipping.after before).forced = true ∨
      (skipping.after before).stopsAt (lastPlace previous before) token = false := by
  induction before generalizing skipping previous with
  | nil =>
      cases h with
      | cons hgoes _ => exact hgoes
  | cons first before ih =>
      cases h with
      | cons _ hrest =>
          rw [after_cons, lastPlace_cons]
          exact ih hrest

/-- Without force, what is taken away from a count was there. -/
theorem Passes.count_after (h : skipping.Passes previous ts) (hforced : skipping.forced = false)
    (pairing : Pairing) (hbefore : before <+: ts) :
    pairing.count (skipping.after before) + pairing.closed before =
      pairing.count skipping + pairing.opened before := by
  induction h generalizing before with
  | nil =>
      obtain rfl := List.prefix_nil.mp hbefore
      rfl
  | @cons skipping previous token rest hgoes _ ih =>
      rcases List.prefix_cons_iff.mp hbefore with rfl | ⟨before, rfl, hrest⟩
      · rfl
      have hstep : pairing.closes token.kind = true → 0 < pairing.count skipping := by
        intro hcloses
        have hstops := hgoes.resolve_left (by simp [hforced])
        rw [Pairing.stopsAt_of_ends (Pairing.ends_of_closes hcloses)] at hstops
        exact Nat.pos_of_ne_zero (by simpa using hstops)
      have hskip := Pairing.count_skip hstep
      have hmore := ih (skipping.forced_skip token.kind) hrest
      simp only [after_cons, Pairing.closed, Pairing.opened, List.countP_cons] at hmore ⊢
      omega

/-- A token that closes a body leaves nothing open if it is skipped by force. -/
theorem skip_of_closesBody (h : token.kind.closesBody = true) :
    ({ forced := true } : Skipping).skip token.kind = { forced := false } := by
  obtain ⟨kind, span⟩ := token
  cases kind with
  | symbol sign => cases sign <;> simp_all [TokenKind.closesBody, skip]
  | mark which => cases which <;> rfl
  | _ => simp_all [TokenKind.closesBody, skip]

/-- The counts are exact for the tokens that count. -/
theorem Passes.exact (h : Passes { forced } previous ts) (hbefore : before <+: ts)
    (pairing : Pairing) :
    pairing.count (after { forced } before) + pairing.closed (counted forced before) =
      pairing.opened (counted forced before) := by
  have hnone (forced : Bool) : pairing.count { forced } = 0 := by cases pairing <;> rfl
  cases forced with
  | false =>
      have hall := h.count_after rfl pairing hbefore
      rw [hnone, Nat.zero_add] at hall
      rwa [counted_false]
  | true =>
      cases h with
      | nil =>
          obtain rfl := List.prefix_nil.mp hbefore
          exact hnone true
      | @cons _ _ token rest _ hrest =>
          rcases List.prefix_cons_iff.mp hbefore with rfl | ⟨before, rfl, hfront⟩
          · exact hnone true
          have hmore := hrest.count_after (forced_skip _ _) pairing hfront
          rw [after_cons, counted]
          by_cases hclose : token.kind.closesBody = true
          · rw [skip_of_closesBody hclose, hnone, Nat.zero_add] at hmore
            simpa [hclose, skip_of_closesBody hclose] using hmore
          · -- a token that does not close a body takes nothing away
            have hskip : pairing.count (skip { forced := true } token.kind) + _ = _ :=
              Pairing.count_skip fun hcloses =>
                absurd (Pairing.closesBody_of_ends (Pairing.ends_of_closes hcloses)) hclose
            rw [hnone] at hskip
            simp only [hclose, Bool.and_false, Bool.false_eq_true, if_false, Pairing.closed,
              Pairing.opened, List.countP_cons] at hmore ⊢
            omega

/-- Among the tokens that count, those that end a body are inside of something. -/
theorem Passes.inside (h : Passes { forced } previous ts) (pairing : Pairing) :
    pairing.Inside (counted forced ts) := by
  intro before token rest hcounted hends
  obtain ⟨front, rfl, rfl, hfirst⟩ := exists_of_counted hcounted
  have hgoes : (after { forced } front).stopsAt (lastPlace previous front) token = false := by
    refine h.goesOn.resolve_left fun hforced => ?_
    obtain rfl := eq_nil_of_forced_after hforced
    exact absurd (Pairing.closesBody_of_ends hends) (by simp [hfirst hforced rfl])
  have hexact := h.exact (List.prefix_append front _) pairing
  rw [Pairing.stopsAt_of_ends hends, beq_eq_false_iff_ne] at hgoes
  omega

/-- Whether skipping ends in front of a token, behind tokens of which these count. -/
def stopsBehind (ts : List Token) (previous : Span) (token : Token) : Bool :=
  stopsAt ⟨false, Pairing.braces.opened ts - Pairing.braces.closed ts,
    Pairing.chains.opened ts - Pairing.chains.closed ts⟩ previous token

theorem Passes.stopsAt_after (h : Passes { forced } previous ts) (hbefore : before <+: ts)
    (place : Span) (token : Token) :
    (after { forced } before).stopsAt place token =
      stopsBehind (counted forced before) place token := by
  have hbraces := h.exact hbefore .braces
  have hchains := h.exact hbefore .chains
  rw [stopsBehind, ← hbraces, ← hchains, Nat.add_sub_cancel, Nat.add_sub_cancel]
  rfl

end Skipping

end ConfLang
