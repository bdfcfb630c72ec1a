import ConfLang.Proofs.Alteration.Follows
import ConfLang.Proofs.Alteration.Text
import ConfLang.Proofs.Excerpt.Extent

/-!
# Lists among tokens

A list is an array or the arguments of a call.  The tree tells where its items end and where the
bracket that closes it ends (`Program.lists`), and nothing about its commas: there is one behind
each item but the last, and there may be one behind that.

`ListIn` says how a list is found among the tokens of a tree.  Behind each item stands a comma or
the closing bracket.  If there is no comma behind the last one, the tokens with a comma there
belong to the same tree.

The tokens around a list do not matter for this, so the induction over the grammar only collects
them: `ListIn.behind` and `ListIn.before` put some in front of a list and behind it, and
`ListIn.imp` takes a rule of the grammar for what the tokens belong to.
-/

namespace ConfLang

/-! ## Lists of a tree -/

/-- Where the items of a list end, and where the bracket that closes it ends. -/
structure ListPlace where
  items : List Nat
  stop : Nat
  deriving DecidableEq, Repr

mutual

/-- The lists in an expression. -/
def Expression.lists : Expression → List ListPlace
  | .array elements span =>
    ⟨elements.map (·.span.stop), span.stop⟩ :: Expression.listsOf elements
  | .group inner _ => inner.lists
  | .negation operand _ => operand.lists
  | .member object _ _ => object.lists
  | .call callee arguments span =>
    ⟨arguments.map (·.value.span.stop), span.stop⟩ :: callee.lists ++ Argument.listsOf arguments
  | .binary _ left right _ => left.lists ++ right.lists
  | .integer .. | .float .. | .string .. | .name .. | .defined .. => []

/-- The lists in expressions. -/
def Expression.listsOf : List Expression → List ListPlace
  | [] => []
  | first :: rest => first.lists ++ Expression.listsOf rest

/-- The lists in the arguments of a call. -/
def Argument.listsOf : List Argument → List ListPlace
  | [] => []
  | .mk _ value :: rest => value.lists ++ Argument.listsOf rest

end

/-- The lists in the condition of a directive. -/
def Condition.lists : Condition → List ListPlace
  | .holds expression => expression.lists
  | _ => []

/-- The lists in a type that may be missing. -/
def Expression.listsOption : Option Expression → List ListPlace
  | none => []
  | some expression => expression.lists

mutual

/-- The lists in a statement. -/
def Statement.lists : Statement → List ListPlace
  | .constant _ type value _ => Expression.listsOption type ++ value.lists
  | .group _ body _ => body.lists
  | .assign _ value _ | .append _ value _ => value.lists
  | .choice condition thenBody elseBody _ =>
    condition.lists ++ thenBody.lists ++ Body.listsOption elseBody
  | .conditional condition thenBody branches elseBody _ =>
    condition.lists ++ thenBody.lists ++ (Branch.listsOf branches ++ Body.listsOption elseBody)
  | .expand .. | .message .. | .passage .. => []

/-- The lists in a body. -/
def Body.lists : Body → List ListPlace
  | .mk statements _ => Statement.listsOf statements

/-- The lists in a body that may be missing. -/
def Body.listsOption : Option Body → List ListPlace
  | none => []
  | some body => body.lists

/-- The lists in statements. -/
def Statement.listsOf : List Statement → List ListPlace
  | [] => []
  | first :: rest => first.lists ++ Statement.listsOf rest

/-- The lists in the branches of a block. -/
def Branch.listsOf : List Branch → List ListPlace
  | [] => []
  | .mk condition body _ :: rest => condition.lists ++ body.lists ++ Branch.listsOf rest

end

/-- The lists in a program. -/
def Program.lists (program : Program) : List ListPlace :=
  Statement.listsOf program.statements

theorem Expression.listsOf_eq (elements : List Expression) :
    listsOf elements = elements.flatMap lists := by
  induction elements with
  | nil => rfl
  | cons first rest ih => rw [listsOf, ih, List.flatMap_cons]

theorem Argument.listsOf_eq (arguments : List Argument) :
    listsOf arguments = arguments.flatMap (·.value.lists) := by
  induction arguments with
  | nil => rfl
  | cons first rest ih =>
      obtain ⟨label, value⟩ := first
      rw [listsOf, ih, List.flatMap_cons]
      rfl

/-! ## Zones -/

namespace Zone

variable {ts : List Token}

theorem behind_cons_code {token : Token} (htoken : Zone.code.after token.kind = .code)
    (h : Zone.code.behind ts = .code) : Zone.code.behind (token :: ts) = .code := by
  rw [behind_cons, htoken, h]

theorem behind_append_code {xs : List Token} (hxs : Zone.code.behind xs = .code)
    (h : Zone.code.behind ts = .code) : Zone.code.behind (xs ++ ts) = .code := by
  rw [behind_append, hxs, h]

theorem behind_of_plain (h : ∀ token ∈ ts, token.kind.isPlain = true) :
    Zone.code.behind ts = .code := by
  induction ts with
  | nil => rfl
  | cons token rest ih =>
      rw [List.forall_mem_cons] at h
      have hzone : Zone.code.after token.kind = .code := by
        apply after_eq_code (.inl rfl)
        cases hkind : token.kind <;>
          first | rfl | (rw [hkind] at h; exact absurd h.1 (by simp [TokenKind.isPlain]))
      rw [behind_cons, hzone, ih h.2]

theorem behind_of_wholeLines (h : Grammar.WholeLines ts) : Zone.code.behind ts = .code := by
  have hinline {kind : TokenKind} (h : kind.isInline = true) : Zone.code.after kind = .code := by
    refine after_eq_code (.inl rfl) ?_
    simp only [TokenKind.isInline, Bool.and_eq_true, Bool.not_eq_true'] at h
    exact h.2
  induction h with
  | nil => rfl
  | token hkind _ ih => rw [behind_cons, hinline hkind, ih]
  | text hkind _ ih =>
      rw [behind_cons, hinline hkind, behind_cons]
      exact ih
  | directive _ _ _ ih => rw [behind_append, behind_cons, after_endOfLine, ih]

end Zone

namespace Grammar

variable {α : Type} {ts xs ys : List Token} {token : Token} {stop : Nat} {list : ListPlace}
  {belongs belongs' : List Token → Prop}

/-! ## Where tokens end -/

/-- No token is known to end behind an offset, and one of them ends there. -/
structure StopsAt (ts : List Token) (stop : Nat) : Prop where
  last : ∃ inside token, ts = inside ++ [token] ∧ token.span.stop ≤ stop
  stop : ∃ token ∈ ts, stop = token.span.stop

theorem StopsAt.behind (xs : List Token) (h : StopsAt ts stop) : StopsAt (xs ++ ts) stop where
  last := by
    obtain ⟨inside, token, rfl, hle⟩ := h.last
    exact ⟨xs ++ inside, token, (List.append_assoc _ _ _).symm, hle⟩
  stop := by
    obtain ⟨token, hmem, hstop⟩ := h.stop
    exact ⟨token, List.mem_append_right _ hmem, hstop⟩

theorem Extent.stopsAt {span : Span} (h : Extent ts span) : StopsAt ts span.stop where
  last := by
    obtain ⟨inside, token, hts, hle, -⟩ := h.last
    exact ⟨inside, token, hts, hle⟩
  stop := h.stop

/-- The last one of some tokens is one that an expression may end with. -/
def Finished (ts : List Token) : Prop :=
  ∃ inside token, ts = inside ++ [token] ∧ token.kind.endsExpression = true

theorem Finished.behind (xs : List Token) (h : Finished ts) : Finished (xs ++ ts) := by
  obtain ⟨inside, token, rfl, hends⟩ := h
  exact ⟨xs ++ inside, token, (List.append_assoc _ _ _).symm, hends⟩

/-- Tokens end at an offset, with one that an expression may end with. -/
structure EndsItem (ts : List Token) (stop : Nat) : Prop where
  stopsAt : StopsAt ts stop
  finished : Finished ts

theorem EndsItem.behind (xs : List Token) (h : EndsItem ts stop) : EndsItem (xs ++ ts) stop :=
  ⟨h.stopsAt.behind xs, h.finished.behind xs⟩

/-! ## Lists among tokens -/

/-- An item stands among tokens: where it ends, a comma or the bracket that closes the list comes
next. -/
def ItemIn (ts : List Token) (stop : Nat) : Prop :=
  ∃ first next rest, ts = first ++ next :: rest ∧ EndsItem first stop ∧
    Zone.code.behind first = .code ∧
    (next.kind = .symbol .comma ∨ next.kind.closesList = true)

/-- A list that has items ends among tokens, with a comma behind the last item or without one, and
the tokens with a comma there belong to a language. -/
def ListEnd (belongs : List Token → Prop) (ts : List Token) (last stop : Nat) : Prop :=
  ∃ first commas place closer rest,
    ts = first ++ (commas ++ closer :: rest) ∧ EndsItem first last ∧
    Zone.code.behind first = .code ∧ (commas = [] ∨ commas = [⟨.symbol .comma, place⟩]) ∧
    closer.kind.closesList = true ∧ StopsAt (first ++ (commas ++ [closer])) stop ∧
    belongs (first ++ ⟨.symbol .comma, place⟩ :: closer :: rest)

/-- A list stands among the tokens of a language. -/
structure ListIn (belongs : List Token → Prop) (ts : List Token) (list : ListPlace) : Prop where
  items : ∀ stop ∈ list.items, ItemIn ts stop
  closed : ∀ last ∈ list.items.getLast?, ListEnd belongs ts last list.stop

theorem ItemIn.behind (hxs : Zone.code.behind xs = .code) (h : ItemIn ts stop) :
    ItemIn (xs ++ ts) stop := by
  obtain ⟨first, next, rest, rfl, hends, hzone, hnext⟩ := h
  refine ⟨xs ++ first, next, rest, (List.append_assoc _ _ _).symm, hends.behind xs, ?_, hnext⟩
  rw [Zone.behind_append, hxs, hzone]

theorem ItemIn.before (ys : List Token) (h : ItemIn ts stop) : ItemIn (ts ++ ys) stop := by
  obtain ⟨first, next, rest, rfl, hends⟩ := h
  exact ⟨first, next, rest ++ ys, by simp, hends⟩

namespace ListIn

theorem behind (hxs : Zone.code.behind xs = .code)
    (h : ListIn (fun others => belongs (xs ++ others)) ts list) :
    ListIn belongs (xs ++ ts) list where
  items stop hmem := (h.items stop hmem).behind hxs
  closed last hlast := by
    obtain ⟨first, commas, place, closer, rest, rfl, hends, hzone, hcommas, hcloses, hstop, h⟩ :=
      h.closed last hlast
    refine ⟨xs ++ first, commas, place, closer, rest, (List.append_assoc _ _ _).symm,
      hends.behind xs, ?_, hcommas, hcloses, ?_, ?_⟩
    · rw [Zone.behind_append, hxs, hzone]
    · rw [List.append_assoc]
      exact hstop.behind xs
    · rw [List.append_assoc]
      exact h

theorem cons (htoken : Zone.code.after token.kind = .code)
    (h : ListIn (fun others => belongs (token :: others)) ts list) :
    ListIn belongs (token :: ts) list := by
  rw [← List.singleton_append]
  exact behind htoken h

theorem before (ys : List Token) (h : ListIn (fun others => belongs (others ++ ys)) ts list) :
    ListIn belongs (ts ++ ys) list where
  items stop hmem := (h.items stop hmem).before ys
  closed last hlast := by
    obtain ⟨first, commas, place, closer, rest, rfl, hends, hzone, hcommas, hcloses, hstop, h⟩ :=
      h.closed last hlast
    refine ⟨first, commas, place, closer, rest ++ ys, by simp, hends, hzone, hcommas, hcloses,
      hstop, ?_⟩
    simpa using h

/-- With a comma in a list, there is the same first token, and it is not the only one. -/
theorem imp (h : ListIn belongs ts list)
    (himp : ∀ others, others.head? = ts.head? → (∀ token, others ≠ [token]) → belongs others →
      belongs' others) : ListIn belongs' ts list where
  items := h.items
  closed last hlast := by
    obtain ⟨first, commas, place, closer, rest, rfl, hends, hzone, hcommas, hcloses, hstop, h⟩ :=
      h.closed last hlast
    refine ⟨first, commas, place, closer, rest, rfl, hends, hzone, hcommas, hcloses, hstop,
      himp _ ?_ ?_ h⟩
    · obtain ⟨inside, token, rfl, -⟩ := hends.finished
      cases inside <;> rfl
    · intro token hsingle
      have hlength := congrArg List.length hsingle
      simp only [List.length_append, List.length_cons, List.length_nil] at hlength
      omega

end ListIn

/-! ## Items -/

/-- The lists in the trees of a language stand among their tokens. -/
def HasLists (language : Language α) (lists : α → List ListPlace) : Prop :=
  ∀ ⦃ts a⦄, language ts a → ∀ list ∈ lists a, ListIn (language · a) ts list

variable {begins : TokenKind → Bool} {item : Language α} {as : List α} {a : α}
  {lists : α → List ListPlace} {stopOf : α → Nat} {closer : Token}

theorem hasLists_items (hl : Worded begins item) (hlists : HasLists item lists) :
    HasLists (Items item) (·.flatMap lists) := by
  intro ts as h
  show ∀ list ∈ as.flatMap lists, ListIn (Items item · as) ts list
  induction h with
  | nil => exact nofun
  | last h =>
      intro list hmem
      rw [List.flatMap_singleton] at hmem
      exact (hlists h list hmem).imp fun _ _ _ h => .last h
  | @cons first rest a as comma h hrest ih =>
      intro list hmem
      rw [List.flatMap_cons, List.mem_append] at hmem
      rcases hmem with hmem | hmem
      · refine .before _ ((hlists h list hmem).imp fun _ _ _ h => ?_)
        exact .cons h hrest
      · refine .behind (Zone.behind_of_plain (hl.plain h)) (.cons rfl ((ih list hmem).imp ?_))
        exact fun _ _ _ hrest => .cons h hrest

/-- Behind an item there is a comma, or nothing. -/
theorem Items.item_behind (h : Items item ts as) (ha : a ∈ as) :
    ∃ first inside rest, ts = first ++ inside ++ rest ∧ item inside a ∧
      ∀ token ∈ rest.head?, token.kind = .symbol .comma := by
  induction h with
  | nil => cases ha
  | @last ts a' h =>
      rw [List.mem_singleton] at ha
      exact ⟨[], ts, [], (List.append_nil _).symm, ha ▸ h, nofun⟩
  | @cons first rest a' as comma h hrest ih =>
      rcases List.mem_cons.mp ha with rfl | ha
      · refine ⟨[], first, ⟨.symbol .comma, comma⟩ :: rest, rfl, h, ?_⟩
        rintro _ ⟨⟩
        rfl
      · obtain ⟨before, inside, behind, rfl, hitem, hbehind⟩ := ih ha
        exact ⟨first ++ ⟨.symbol .comma, comma⟩ :: before, inside, behind, by simp, hitem, hbehind⟩

/-- The last item may have a comma behind it or not. -/
theorem Items.last_behind (h : Items item ts as) (ha : a ∈ as.getLast?) :
    ∃ first inside commas, ts = first ++ inside ++ commas ∧ item inside a ∧
      (commas = [] ∨ ∃ place, commas = [⟨.symbol .comma, place⟩]) ∧
      ∀ place, Items item (first ++ inside ++ [⟨.symbol .comma, place⟩]) as := by
  induction h with
  | nil => cases ha
  | @last ts a' h =>
      obtain rfl := Option.some.inj ha
      exact ⟨[], ts, [], (List.append_nil _).symm, h, .inl rfl, fun place => .cons h .nil⟩
  | @cons first rest a' as comma h hrest ih =>
      cases as with
      | nil =>
          obtain rfl := Option.some.inj ha
          cases hrest
          exact ⟨[], first, [⟨.symbol .comma, comma⟩], rfl, h, .inr ⟨_, rfl⟩, fun place => .cons h .nil⟩
      | cons next as =>
          rw [List.getLast?_cons_cons] at ha
          obtain ⟨before, inside, commas, rfl, hitem, hcommas, hall⟩ := ih ha
          refine ⟨first ++ ⟨.symbol .comma, comma⟩ :: before, inside, commas, by simp, hitem, hcommas,
            fun place => ?_⟩
          have hmore : Items item (first ++ ⟨.symbol .comma, comma⟩ ::
              (before ++ inside ++ [⟨.symbol .comma, place⟩])) (a' :: next :: as) := .cons h (hall place)
          simpa using hmore

/-- The items of a list, in brackets. -/
theorem listIn_items {front : List Token} {outer : Nat} (hl : Worded begins item)
    (hends : ∀ ⦃ts a⦄, item ts a → EndsItem ts (stopOf a)) (h : Items item ts as)
    (hfront : Zone.code.behind front = .code) (hcloses : closer.kind.closesList = true)
    (hstop : StopsAt (front ++ ts ++ [closer]) outer)
    (hbelongs : ∀ ts, Items item ts as → belongs (front ++ ts ++ [closer])) :
    ListIn belongs (front ++ ts ++ [closer]) ⟨as.map stopOf, outer⟩ where
  items stop hmem := by
    obtain ⟨a, ha, rfl⟩ := List.mem_map.mp hmem
    have hplain := plain_items hl h
    obtain ⟨first, inside, rest, rfl, hitem, hnext⟩ := h.item_behind ha
    have hzone : Zone.code.behind (front ++ (first ++ inside)) = .code := by
      rw [Zone.behind_append, hfront]
      exact Zone.behind_of_plain fun token hmem => hplain token (List.mem_append_left _ hmem)
    have hfirst := ((hends hitem).behind first).behind front
    cases rest with
    | nil => exact ⟨_, closer, [], by simp, hfirst, hzone, .inr hcloses⟩
    | cons next rest => exact ⟨_, next, rest ++ [closer], by simp, hfirst, hzone, .inl (hnext next rfl)⟩
  closed last hlast := by
    rw [List.getLast?_map, Option.mem_map] at hlast
    obtain ⟨a, ha, rfl⟩ := hlast
    have hplain := plain_items hl h
    obtain ⟨first, inside, commas, rfl, hitem, hcommas, hall⟩ := h.last_behind ha
    have hzone : Zone.code.behind (front ++ (first ++ inside)) = .code := by
      rw [Zone.behind_append, hfront]
      exact Zone.behind_of_plain fun token hmem => hplain token (List.mem_append_left _ hmem)
    have hfirst := ((hends hitem).behind first).behind front
    have hcommas' : ∃ place, commas = [] ∨ commas = [⟨.symbol .comma, place⟩] := by
      rcases hcommas with hnone | ⟨place, hsome⟩
      · exact ⟨{}, .inl hnone⟩
      · exact ⟨place, .inr hsome⟩
    obtain ⟨place, hcommas'⟩ := hcommas'
    refine ⟨_, commas, place, closer, [], by simp, hfirst, hzone, hcommas', hcloses, ?_, ?_⟩
    · simpa using hstop
    · simpa using hbelongs _ (hall place)

/-! ## Expressions -/

variable {inCondition : Bool} {inner : Option (Language Expression)} {e : Expression}

/-- The last token of an expression of a language is one that an expression may end with. -/
def Finishes (language : Language Expression) : Prop :=
  ∀ ⦃ts e⦄, language ts e → Finished ts

theorem finished_name {name : Identifier} (h : Name ts name) : Finished ts := by
  cases h
  exact ⟨[], _, rfl, rfl⟩

theorem finished_last (xs : List Token) (h : token.kind.endsExpression = true) :
    Finished (xs ++ [token]) :=
  ⟨xs, token, rfl, h⟩

theorem finishes_binary {operand : Language Expression} (hoperand : Finishes operand) (least : Nat) :
    Finishes (Binary operand least) := by
  intro ts e h
  induction h with
  | operand h => exact hoperand h
  | operation _ _ _ _ ih => exact (ih.behind [_]).behind _

theorem finishes_primary : Finishes (Primary inCondition inner) := by
  intro ts e h
  cases h with
  | name h => exact finished_name h
  | integer | float | string => exact finished_last [] rfl
  | defined | group | array => exact finished_last _ rfl

theorem finishes_suffixed : Finishes (Suffixed inCondition inner) := by
  intro ts e h
  induction h with
  | primary h => exact finishes_primary h
  | member _ hname => exact ((finished_name hname).behind [_]).behind _
  | call => exact finished_last _ rfl

theorem finishes_operand (hinner : ∀ language ∈ inner, Finishes language) :
    Finishes (Operand inCondition inner) := by
  intro ts e h
  cases h with
  | negation hmem h => exact (hinner _ hmem h).behind [_]
  | suffixed h => exact finishes_suffixed h

/-- What an inner expression is known for: its tokens, where it ends, and its lists. -/
structure Listed (language : Language Expression) : Prop where
  worded : Worded TokenKind.beginsExpression language
  extent : HasExtent language
  finishes : Finishes language
  lists : HasLists language Expression.lists

theorem Listed.endsItem {language : Language Expression} (hl : Listed language)
    (h : language ts e) : EndsItem ts e.span.stop :=
  ⟨(hl.extent h).stopsAt, hl.finishes h⟩

theorem listed_binary {operand : Language Expression} (hl : Listed operand) (least : Nat) :
    Listed (Binary operand least) where
  worded := worded_binary hl.worded
  extent := extent_binary hl.extent least
  finishes := finishes_binary hl.finishes least
  lists := by
    intro ts e h
    induction h with
    | operand h => exact fun list hmem => (hl.lists h list hmem).imp fun _ _ _ h => .operand h
    | @operation _ _ _ _ _ _ operator hleast hleft hright ihleft ihright =>
        intro list hmem
        rw [Expression.lists, List.mem_append] at hmem
        rcases hmem with hmem | hmem
        · exact .before _ ((ihleft list hmem).imp fun _ _ _ h => .operation hleast h hright)
        · refine .behind (Zone.behind_of_plain ((worded_binary hl.worded).plain hleft)) (.cons ?_ ?_)
          · cases operator <;> rfl
          · exact (ihright list hmem).imp fun _ _ _ h => .operation hleast hleft h

theorem hasLists_argument {language : Language Expression} (hl : Listed language) :
    HasLists (LabelledArgument language) (·.value.lists) := by
  intro ts a h list hmem
  cases h with
  | positional h => exact (hl.lists h list hmem).imp fun _ _ _ h => .positional h
  | labelled hname h =>
      refine .behind ?_ (.cons rfl ((hl.lists h list hmem).imp fun _ _ _ h => .labelled hname h))
      apply Zone.behind_of_plain
      rw [List.forall_mem_cons]
      exact ⟨rfl, worded_name.plain hname⟩

theorem endsItem_argument {language : Language Expression} (hl : Listed language) {a : Argument}
    (h : LabelledArgument language ts a) : EndsItem ts a.value.span.stop := by
  cases h with
  | positional h => exact hl.endsItem h
  | labelled hname h => exact ((hl.endsItem h).behind [_]).behind _

theorem hasLists_primary (hinner : ∀ language ∈ inner, Listed language) :
    HasLists (Primary inCondition inner) Expression.lists := by
  intro ts e h list hmem
  cases h with
  | group hexpression h =>
      refine .before [_] (.cons rfl (((hinner _ hexpression).lists h list hmem).imp fun _ _ _ h => ?_))
      exact .group hexpression h
  | @array expression ts elements opened close hexpression h =>
      have hl := hinner _ hexpression
      rw [Expression.lists, Expression.listsOf_eq, List.mem_cons] at hmem
      rcases hmem with rfl | hmem
      · have harray : Primary inCondition inner _ (.array elements (opened.through close)) :=
          .array hexpression h
        have hstops : StopsAt ([⟨.symbol .openBracket, opened⟩] ++ ts ++
            [⟨.symbol .closeBracket, close⟩]) (opened.through close).stop :=
          (extent_primary harray).stopsAt
        exact listIn_items hl.worded (fun _ _ h => hl.endsItem h) h rfl rfl hstops
          fun _ h => Primary.array hexpression h
      · refine .before [_] (.cons rfl ((hasLists_items hl.worded hl.lists h list hmem).imp ?_))
        exact fun _ _ _ h => .array hexpression h
  | _ => cases hmem

theorem hasLists_suffixed (hinner : ∀ language ∈ inner, Listed language) :
    HasLists (Suffixed inCondition inner) Expression.lists := by
  have hworded : Worded TokenKind.beginsPrimary (Suffixed inCondition inner) :=
    worded_suffixed fun language h => (hinner language h).worded
  intro ts e h
  induction h with
  | primary h => exact fun list hmem => (hasLists_primary hinner h list hmem).imp fun _ _ _ h => .primary h
  | member _ hname ih =>
      exact fun list hmem => .before _ ((ih list hmem).imp fun _ _ _ h => .member h hname)
  | @call expression first rest callee arguments opened close hexpression hcallee hasks h ih =>
      intro list hmem
      have hl := hinner _ hexpression
      have hfront : Zone.code.behind (first ++ [⟨.symbol .openParen, opened⟩]) = .code := by
        apply Zone.behind_of_plain
        rw [List.forall_mem_append]
        exact ⟨hworded.plain hcallee, by simp [TokenKind.isPlain]⟩
      have hitem := worded_labelledArgument hl.worded
      rw [Expression.lists, Argument.listsOf_eq, List.cons_append, List.mem_cons, List.mem_append] at hmem
      rcases hmem with rfl | hmem | hmem
      · rw [List.append_cons first]
        refine listIn_items hitem (fun _ _ h => endsItem_argument hl h) h hfront rfl ?_ fun ts h => ?_
        · rw [← List.append_cons first]
          exact (extent_suffixed (.call hexpression hcallee hasks h)).stopsAt
        · rw [← List.append_cons first]
          exact .call hexpression hcallee hasks h
      · refine .before _ (.before _ ((ih list hmem).imp fun others _ hmore h' => ?_))
        refine .call hexpression h' (fun hnow => ?_) h
        obtain ⟨-, place, hsingle⟩ := hnow
        exact hmore _ hsingle
      · rw [List.append_cons first]
        refine .before _ (.behind hfront ?_)
        refine (hasLists_items hitem (hasLists_argument hl) h list hmem).imp fun _ _ _ h => ?_
        rw [← List.append_cons first]
        exact .call hexpression hcallee hasks h

theorem listed_operand (hinner : ∀ language ∈ inner, Listed language) :
    Listed (Operand inCondition inner) where
  worded := worded_anyOperand fun language h => (hinner language h).worded
  extent := extent_anyOperand fun language h => (hinner language h).extent
  finishes := finishes_operand fun language h => (hinner language h).finishes
  lists := by
    intro ts e h list hmem
    cases h with
    | negation hexpression h =>
        refine .cons rfl (((hinner _ hexpression).lists h list hmem).imp fun _ _ _ h => ?_)
        exact .negation hexpression h
    | suffixed h =>
        refine (hasLists_suffixed (fun language h => ?_) h list hmem).imp fun _ _ _ h => .suffixed h
        obtain ⟨operand, hoperand, rfl⟩ := Option.map_eq_some_iff.mp h
        exact listed_binary (hinner _ hoperand) _

theorem listed_expression (inCondition : Bool) (room : Nat) : Listed (expression inCondition room) := by
  apply listed_binary
  induction room with
  | zero => exact listed_operand nofun
  | succ room ih =>
      apply listed_operand
      intro language hmem
      obtain rfl := Option.mem_some.mp hmem
      exact ih

/-! ## Statements -/

theorem ListIn.line {line : Span}
    (h : ListIn (fun others => belongs (xs ++ ⟨.endOfLine, line⟩ :: others)) ts list) :
    ListIn belongs (xs ++ ⟨.endOfLine, line⟩ :: ts) list := by
  rw [List.append_cons]
  refine .behind (by rw [Zone.behind_append]; rfl) (h.imp fun others _ _ h => ?_)
  rwa [← List.append_cons]

/-- What comes behind a body begins with a token that is left as it is. -/
theorem ListIn.next {next : Token} {rest : List Token} (hxs : Zone.code.behind xs = .code)
    (h : ListIn belongs' (next :: rest) list)
    (himp : ∀ others, belongs' (next :: others) → belongs (xs ++ next :: others)) :
    ListIn belongs (xs ++ next :: rest) list := by
  refine .behind hxs (h.imp fun others hhead _ h => ?_)
  obtain ⟨rest', rfl⟩ := List.head?_eq_some_iff.mp hhead
  exact himp _ h

variable {language : Language Statement} {condition : Language Expression}
  {statements : List Statement}

/-- What the statements of a body are known for: they are whole lines, and their lists. -/
structure ListedStatements (language : Language Statement) : Prop where
  whole : WholeStatements language
  lists : HasLists language Statement.lists

namespace ListedStatements

theorem zone (hl : ListedStatements language) (h : Many language ts statements) :
    Zone.code.behind ts = .code :=
  Zone.behind_of_wholeLines (wholeLines_many hl.whole h)

theorem many (hl : ListedStatements language) : HasLists (Many language) Statement.listsOf := by
  intro ts statements h
  induction h with
  | nil => exact nofun
  | cons h hrest ih =>
      intro list hmem
      rw [Statement.listsOf, List.mem_append] at hmem
      rcases hmem with hmem | hmem
      · exact .before _ ((hl.lists h list hmem).imp fun _ _ _ h => .cons h hrest)
      · refine .behind (Zone.behind_of_wholeLines (hl.whole h)) ((ih list hmem).imp fun _ _ _ h' => ?_)
        exact .cons h h'

theorem block (hl : ListedStatements language) : HasLists (Block language) Body.lists := by
  intro ts body h list hmem
  obtain ⟨h⟩ := h
  exact .before [_] (.cons rfl ((hl.many h list hmem).imp fun _ _ _ h => .block h))

end ListedStatements

theorem hasLists_conditional (hcondition : Listed condition) (kind : ConditionKind) :
    HasLists (Conditional condition kind) Condition.lists := by
  intro ts which h list hmem
  cases h with
  | holds h => exact (hcondition.lists h list hmem).imp fun _ _ _ h => .holds h
  | _ => cases hmem

/-- Behind a line and the statements behind it. -/
theorem zone_behind_line (hl : ListedStatements language) {body : List Token} {line : Span}
    (h : Many language body statements) :
    Zone.code.behind (xs ++ ⟨.endOfLine, line⟩ :: body) = .code := by
  rw [Zone.behind_append, Zone.behind_cons, Zone.after_endOfLine, hl.zone h]

theorem listIn_clauses (hcondition : Listed condition) (hl : ListedStatements language)
    {branches : List Branch} {last : Option Body} {close : Span}
    (h : Clauses condition language ts branches last close) :
    ∀ list ∈ Branch.listsOf branches ++ Body.listsOption last,
      ListIn (Clauses condition language · branches last close) ts list := by
  induction h with
  | endif => exact nofun
  | otherwise hignored hbody hrest =>
      intro list hmem
      refine .before _ (.line ((hl.many hbody list hmem).imp fun _ _ _ h => ?_))
      exact .otherwise hignored h hrest
  | elif h hbody hrest ih =>
      intro list hmem
      rw [Branch.listsOf, List.append_assoc, List.append_assoc, List.mem_append, List.mem_append] at hmem
      rcases hmem with hmem | hmem | hmem
      · refine .before _ (.before _ (.cons rfl ((hcondition.lists h list hmem).imp fun _ _ _ h => ?_)))
        exact .elif h hbody hrest
      · refine .before _ (.line ((hl.many hbody list hmem).imp fun _ _ _ h' => ?_))
        exact .elif h h' hrest
      · exact .next (zone_behind_line hl hbody) (ih list hmem) fun _ hrest => .elif h hbody hrest

theorem hasLists_any {options : Options} {inBlock : Bool} {expression : Language Expression}
    {inner : Option Deeper} (hexpression : Listed expression)
    (hinner : ∀ deeper ∈ inner, Listed deeper.condition ∧
      ∀ inBlock, ListedStatements (deeper.statement inBlock)) :
    HasLists (IsStatement options inBlock expression inner) Statement.lists := by
  have hplain {ts : List Token} {e : Expression} (h : expression ts e) :
      Zone.code.behind ts = .code := Zone.behind_of_plain (hexpression.worded.plain h)
  have hname {ts : List Token} {name : Identifier} (h : Name ts name) :
      Zone.code.behind ts = .code := Zone.behind_of_plain (worded_name.plain h)
  intro ts a h list hmem
  cases h with
  | constant hlabel h =>
      refine .behind (Zone.behind_cons_code rfl (hname hlabel)) (.cons rfl ?_)
      exact (hexpression.lists h list hmem).imp fun _ _ _ h => .constant hlabel h
  | typedConstant hlabel htype h =>
      rw [Statement.lists, List.mem_append] at hmem
      rcases hmem with hmem | hmem
      · refine .before _ (.behind (Zone.behind_cons_code rfl (hname hlabel)) (.cons rfl ?_))
        exact (hexpression.lists htype list hmem).imp fun _ _ _ htype => .typedConstant hlabel htype h
      · refine .behind (Zone.behind_append_code (Zone.behind_cons_code rfl (hname hlabel))
          (Zone.behind_cons_code rfl (hplain htype)))
          (.cons rfl ((hexpression.lists h list hmem).imp fun _ _ _ h => ?_))
        exact .typedConstant hlabel htype h
  | group hd hlabel h =>
      refine .behind (Zone.behind_cons_code rfl (hname hlabel)) ?_
      exact (((hinner _ hd).2 inBlock).block h list hmem).imp fun _ _ _ h => .group hd hlabel h
  | assign hlabel h =>
      refine .behind (hname hlabel) (.cons rfl ((hexpression.lists h list hmem).imp fun _ _ _ h => ?_))
      exact .assign hlabel h
  | append hlabel h =>
      refine .behind (hname hlabel) (.cons rfl ((hexpression.lists h list hmem).imp fun _ _ _ h => ?_))
      exact .append hlabel h
  | choice hd h hbody =>
      have hl := (hinner _ hd).2 inBlock
      rw [Statement.lists, Body.listsOption, List.append_nil, List.mem_append] at hmem
      rcases hmem with hmem | hmem
      · refine .before _ (.cons rfl (.cons rfl ((hexpression.lists h list hmem).imp fun _ _ _ h => ?_)))
        exact .choice hd h hbody
      · refine .behind (Zone.behind_cons_code rfl (Zone.behind_cons_code rfl (hplain h)))
          (.cons rfl ((hl.block hbody list hmem).imp fun _ _ _ hbody => ?_))
        exact .choice hd h hbody
  | choiceElse hd h hbody hother =>
      have hl := (hinner _ hd).2 inBlock
      rw [Statement.lists, Body.listsOption, List.append_assoc, List.mem_append, List.mem_append] at hmem
      rcases hmem with hmem | hmem | hmem
      · refine .before _ (.before _ (.cons rfl (.cons rfl ?_)))
        exact (hexpression.lists h list hmem).imp fun _ _ _ h => .choiceElse hd h hbody hother
      · refine .before _ (.behind (Zone.behind_cons_code rfl (Zone.behind_cons_code rfl (hplain h)))
          (.cons rfl ((hl.block hbody list hmem).imp fun _ _ _ hbody => ?_)))
        exact .choiceElse hd h hbody hother
      · have hblock := Zone.behind_of_wholeLines (wholeLines_block hl.whole hbody)
        refine .behind (Zone.behind_append_code (Zone.behind_cons_code rfl (Zone.behind_cons_code rfl
          (hplain h))) (Zone.behind_cons_code rfl hblock)) (.cons rfl ?_)
        exact (hl.block hother list hmem).imp fun _ _ _ hother => .choiceElse hd h hbody hother
  | conditional hd hcondition hbody hclauses =>
      obtain ⟨hwhich, hstatement⟩ := hinner _ hd
      rw [Statement.lists, List.append_assoc, List.mem_append, List.mem_append] at hmem
      rcases hmem with hmem | hmem | hmem
      · have hin := hasLists_conditional hwhich _ hcondition list hmem
        refine .before _ (.before _ (.cons ?_ (hin.imp fun _ _ _ hcondition => ?_)))
        -- a condition with lists is no path, so its line is no raw text
        · cases hcondition <;> first | rfl | cases hmem
        · exact .conditional hd hcondition hbody hclauses
      · refine .before _ (.line (((hstatement true).many hbody list hmem).imp fun _ _ _ hbody => ?_))
        exact .conditional hd hcondition hbody hclauses
      · refine .next (zone_behind_line (hstatement true) hbody)
          (listIn_clauses hwhich (hstatement true) hclauses list hmem) fun _ hclauses => ?_
        exact .conditional hd hcondition hbody hclauses
  | _ => cases hmem

theorem listedStatements (options : Options) (room : Nat) (inBlock : Bool) :
    ListedStatements (statement options room inBlock) where
  whole := wholeStatements options room inBlock
  lists := by
    induction room generalizing inBlock with
    | zero => exact hasLists_any (listed_expression false 0) nofun
    | succ room ih =>
        refine hasLists_any (listed_expression false (room + 1)) fun deeper hdeeper => ?_
        obtain rfl := Option.mem_some.mp hdeeper
        exact ⟨listed_expression true room,
          fun inBlock => ⟨wholeStatements options room inBlock, ih inBlock⟩⟩

/-- The lists of a program stand among its tokens. -/
theorem listIn_program {options : Options} {program : Program} (h : IsProgram options ts program) :
    ∀ list ∈ program.lists, ListIn (IsProgram options · program) ts list :=
  (listedStatements options options.maxNestingDepth false).many h

end Grammar

end ConfLang
