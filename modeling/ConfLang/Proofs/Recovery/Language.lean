import ConfLang.Proofs.Grammar.Language
import ConfLang.Proofs.Grammar.Scan

/-!
# The grammar with constructs that cannot be read

A lenient language allows some constructs where a statement is expected although they cannot be
read there: a block in braces that belongs to nothing, and groups and conditional directive
blocks for which no room is left.  Such a construct stands for nothing in the tree, but for one
problem.

What is inside of such a construct is skipped token by token, without raw text, and it need not
be a body: only what opens and closes something matters.  So it is any balanced list of tokens.

All other rules are those of the grammar, with bodies of lenient languages.
-/

namespace ConfLang

/-- A token that neither opens nor closes nor divides anything, and that is found without
asking for raw text. -/
def TokenKind.isQuiet : TokenKind → Bool
  | symbol .openBrace | symbol .closeBrace | opener _ | mark _ => false
  | kind => kind.isScanned

namespace Grammar

/-! ## Constructs that cannot be read -/

/-- Lists of tokens in which all is closed that is opened, inside a conditional directive block,
where further marks may come, or elsewhere. -/
inductive Balanced : Bool → List Token → Prop where
  | nil {inBlock} : Balanced inBlock []
  | quiet {inBlock token rest} : token.kind.isQuiet = true → Balanced inBlock rest →
    Balanced inBlock (token :: rest)
  | mark {which span rest} : which ≠ .endif → Balanced true rest →
    Balanced true (⟨.mark which, span⟩ :: rest)
  | braces {inBlock inside rest opened close} : Balanced inBlock inside → Balanced inBlock rest →
    Balanced inBlock
      (⟨.symbol .openBrace, opened⟩ :: inside ++ ⟨.symbol .closeBrace, close⟩ :: rest)
  | chain {inBlock kind inside rest opened close} : Balanced true inside → Balanced inBlock rest →
    Balanced inBlock (⟨.opener kind, opened⟩ :: inside ++ ⟨.mark .endif, close⟩ :: rest)

/-- The constructs that cannot be read where a statement is expected, and what is wrong about
them.  A block in braces has no business there, and the others have no room. -/
inductive Rejected (options : Options) (room : Nat) : List Token → Problem → Prop where
  | block {inside opened close} : Balanced false inside →
    Rejected options room
      (⟨.symbol .openBrace, opened⟩ :: inside ++ [⟨.symbol .closeBrace, close⟩])
      ⟨.unexpected .statement (.symbol .openBrace), opened⟩
  | group {label name inside start opened close} : room = 0 → Name label name →
    Balanced false inside →
    Rejected options room
      (⟨.keyword .group, start⟩ :: label ++
        (⟨.symbol .openBrace, opened⟩ :: inside ++ [⟨.symbol .closeBrace, close⟩]))
      ⟨.nestingTooDeep options.maxNestingDepth, opened⟩
  | conditional {kind inside start close line} : room = 0 → Balanced true inside →
    Rejected options room
      (⟨.opener kind, start⟩ :: inside ++ [⟨.mark .endif, close⟩, ⟨.endOfLine, line⟩])
      ⟨.nestingTooDeep options.maxNestingDepth, start⟩

/-- What follows a construct that is skipped begins on another line.  It is no block in braces,
which would be skipped along with the construct. -/
def StartsBelow (skipped rest : List Token) : Prop :=
  ∀ last ∈ skipped.getLast?, ∀ next ∈ rest.head?,
    next.span.line ≠ last.span.line ∧ next.kind ≠ .symbol .openBrace

/-! ## Bodies -/

/-- The lists of tokens that stand for a tree, and the problems of constructs in them. -/
abbrev Lenient (α : Type) := List Token → α → List Problem → Prop

/-- Statements one after the other, and constructs between them that cannot be read. -/
inductive Mixed (statement : Lenient Statement) (rejected : List Token → Problem → Prop) :
    Lenient (List Statement) where
  | nil : Mixed statement rejected [] [] []
  | statement {first rest a as problems more} : statement first a problems →
    Mixed statement rejected rest as more →
    Mixed statement rejected (first ++ rest) (a :: as) (problems ++ more)
  | rejected {first rest as problem more} : rejected first problem →
    Mixed statement rejected rest as more → StartsBelow first rest →
    Mixed statement rejected (first ++ rest) as (problem :: more)

/-- A block in braces. -/
inductive LenientBlock (body : Lenient (List Statement)) : Lenient Body where
  | block {ts statements problems opened close} : body ts statements problems →
    LenientBlock body (⟨.symbol .openBrace, opened⟩ :: ts ++ [⟨.symbol .closeBrace, close⟩])
      (.mk statements (opened.through close)) problems

/-- What follows the first body of a conditional directive block. -/
inductive LenientClauses (expression : Language Expression) (body : Lenient (List Statement)) :
    List Token → List Branch → Option Body → Span → List Problem → Prop where
  | endif {ts close line} : Ignored ts →
    LenientClauses expression body (⟨.mark .endif, close⟩ :: ts ++ [⟨.endOfLine, line⟩])
      [] none close []
  | otherwise {ts ts' statements problems next rest start line close} : Ignored ts →
    body ts' statements problems → LenientClauses expression body (next :: rest) [] none close [] →
    LenientClauses expression body
      (⟨.mark .otherwise, start⟩ :: ts ++ ⟨.endOfLine, line⟩ :: ts' ++ next :: rest)
      [] (some (directiveBody statements next)) close problems
  | elif {ts e ts' statements problems next rest branches last more start line close} :
    expression ts e → body ts' statements problems →
    LenientClauses expression body (next :: rest) branches last close more →
    LenientClauses expression body
      (⟨.mark .elif, start⟩ :: ts ++ ⟨.endOfLine, line⟩ :: ts' ++ next :: rest)
      (.mk e (directiveBody statements next)
        (start.through (directiveBody statements next).span) :: branches) last close
      (problems ++ more)

/-! ## Statements -/

/-- The statements of the grammar, and those with lenient bodies, inside a conditional directive
block or elsewhere. -/
inductive LenientStatement (plain : Language Statement) (inBlock : Bool)
    (expression condition : Language Expression) (body : Bool → Lenient (List Statement)) :
    Lenient Statement where
  | plain {ts a} : plain ts a → LenientStatement plain inBlock expression condition body ts a []
  | group {label ts name inside problems start} : Name label name →
    LenientBlock (body inBlock) ts inside problems →
    LenientStatement plain inBlock expression condition body (⟨.keyword .group, start⟩ :: label ++ ts)
      (.group name inside (start.through inside.span)) problems
  | choice {ts ts' e inside problems start opened close} : expression ts e →
    LenientBlock (body inBlock) ts' inside problems →
    LenientStatement plain inBlock expression condition body
      (⟨.keyword .ifWord, start⟩ :: ⟨.symbol .openParen, opened⟩ :: ts ++
        ⟨.symbol .closeParen, close⟩ :: ts')
      (.choice e inside none (start.through inside.span)) problems
  | choiceElse {ts ts' ts'' e inside other problems more start opened close word} :
    expression ts e → LenientBlock (body inBlock) ts' inside problems →
    LenientBlock (body inBlock) ts'' other more →
    LenientStatement plain inBlock expression condition body
      (⟨.keyword .ifWord, start⟩ :: ⟨.symbol .openParen, opened⟩ :: ts ++
        ⟨.symbol .closeParen, close⟩ :: ts' ++ ⟨.keyword .elseWord, word⟩ :: ts'')
      (.choice e inside (some other) (start.through other.span)) (problems ++ more)
  | conditional {kind ts condition' ts' statements problems next rest branches last more
      opened line close} : Conditional condition kind ts condition' →
    body true ts' statements problems →
    LenientClauses condition (body true) (next :: rest) branches last close more →
    LenientStatement plain inBlock expression condition body
      (⟨.opener kind, opened⟩ :: ts ++ ⟨.endOfLine, line⟩ :: ts' ++ next :: rest)
      (.conditional condition' (directiveBody statements next) branches last (opened.through close))
      (problems ++ more)

/-- Statements with some room for nesting, and with constructs inside that cannot be read. -/
def lenientStatement (options : Options) : Nat → Bool → Lenient Statement
  | 0, inBlock => fun ts a problems => statement options 0 inBlock ts a ∧ problems = []
  | room + 1, inBlock =>
    LenientStatement (statement options (room + 1) inBlock) inBlock (expression false (room + 1))
      (expression true room)
      fun inBlock => Mixed (lenientStatement options room inBlock) (Rejected options room)

/-- Bodies with some room for nesting, with constructs that cannot be read. -/
def lenientBody (options : Options) (room : Nat) (inBlock : Bool) : Lenient (List Statement) :=
  Mixed (lenientStatement options room inBlock) (Rejected options room)

/-- The lenient grammar reads a source as a program, with some problems: nothing is wrong about
its tokens, and they are those of the program and of constructs that cannot be read. -/
def ReadsWith (options : Options) (source : String) (program : Program) (problems : List Problem) :
    Prop :=
  ∃ ts last, (Cursor.ofSource source).Scans ts last ∧ last.AtEnd ∧
    lenientBody options options.maxNestingDepth false ts program.statements problems

end Grammar

end ConfLang
