import ConfLang.Reading.Basic

/-!
# Going on after a problem

After a statement that could not be read, tokens are skipped up to one where a
statement is likely to begin, or that closes the body the statement stands in.
On the way braces and conditional directive blocks are counted, so that what is
inside a skipped construct neither begins a statement nor closes a body.
-/

namespace ConfLang

/-- What was opened and not closed among skipped tokens, and whether the next token
is skipped whatever it is. -/
structure Skipping where
  forced : Bool
  braces : Nat := 0
  chains : Nat := 0
  deriving DecidableEq, Repr

namespace Skipping

/-- Whether nothing is open among the skipped tokens. -/
def isOutermost (skipping : Skipping) : Bool :=
  skipping.braces == 0 && skipping.chains == 0

/-- Whether skipping ends in front of a token.  A name begins a statement only on
another line than the token before it. -/
def stopsAt (skipping : Skipping) (previous : Span) (token : Token) : Bool :=
  match token.kind with
  | .endOfFile => true
  | .symbol .closeBrace => skipping.braces == 0
  | .mark _ => skipping.chains == 0
  | .keyword .constant | .keyword .group | .keyword .ifWord | .message _ | .passage _ | .opener _ =>
    skipping.isOutermost
  | .name _ _ => skipping.isOutermost && token.span.line != previous.line
  | _ => false

/-- What is open after one more token. -/
def skip (skipping : Skipping) (kind : TokenKind) : Skipping :=
  match kind with
  | .symbol .openBrace => { skipping with forced := false, braces := skipping.braces + 1 }
  | .symbol .closeBrace => { skipping with forced := false, braces := skipping.braces - 1 }
  | .opener _ => { skipping with forced := false, chains := skipping.chains + 1 }
  | .mark .endif => { skipping with forced := false, chains := skipping.chains - 1 }
  | _ => { skipping with forced := false }

end Skipping

namespace Reading

/-- Skips one token, unless skipping ends in front of it. -/
def skipTurn (skipping : Skipping) : Reading (Turn Skipping) := do
  let token ← peek
  if !skipping.forced && skipping.stopsAt (← get).previous token then
    return .done skipping
  else
    let _ ← advance
    note (.skipped token)
    if token.kind = .endOfFile then return .done skipping
    else return .again (skipping.skip token.kind)

/-- Skips to where a statement is likely to begin.  If nothing was taken since the
count of tokens was `start`, at least one token is skipped. -/
def recover (start : Nat) : Reading Unit := do
  let forced := (← get).consumed == start
  discard (iterate skipTurn { forced })

/-- Skips the rest of the line of a directive, its end included. -/
def skipLine : Reading Unit :=
  discard (iterate (fun _ => do
    match (← peek).kind with
    | .endOfFile => return .done ()
    | .endOfLine =>
      let _ ← advance
      return .done ()
    | _ =>
      let _ ← advance
      return .again ()) ())

end Reading

end ConfLang
