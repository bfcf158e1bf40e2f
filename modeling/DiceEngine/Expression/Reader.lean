import DiceEngine.Expression.Malformed
import DiceEngine.Text.Blank
import DiceEngine.Token

/-!
# Reading expressions

A text is read token by token, a term and an operator in turn, with blanks allowed around each of
them. Reading ends with the text, or at the first place where the token due is missing or cannot
be appended. Such a place is given by the text left unread there, from which `parse` counts bytes.
-/

namespace DiceEngine

namespace Expression

/-- A place where reading stopped before an expression was complete. -/
structure Stop where
  unread : List Char
  reason : Reason
  soFar : Expression
  deriving DecidableEq, Repr

/-- Append the token that is due at the start of the text. -/
def readToken (e : Expression) (s : List Char) : Except Rejection (Expression × List Char) :=
  if e.expectsTerm then
    match Token.term s with
    | none => .error .expectedTerm
    | some (t, rest) => (e.pushTerm t).map (·, rest)
  else
    match Token.operator s with
    | none => .error .expectedOperator
    | some (op, rest) => (e.pushOperator op).map (·, rest)

theorem length_lt_of_readToken {e e' : Expression} {s rest : List Char}
    (h : e.readToken s = .ok (e', rest)) : rest.length < s.length := by
  unfold readToken at h
  split at h
  · split at h
    · cases h
    · next t r ht =>
      cases hp : e.pushTerm t with
      | error _ => simp [hp, Except.map] at h
      | ok _ => simp only [hp, Except.map] at h; cases h; exact Token.length_lt_of_term ht
  · split at h
    · cases h
    · next op r ho =>
      cases hp : e.pushOperator op with
      | error _ => simp [hp, Except.map] at h
      | ok _ => simp only [hp, Except.map] at h; cases h; exact Token.length_lt_of_operator ho

/-- What is made of an expression when its text has ended. -/
def atEnd (e : Expression) : Except Stop Expression :=
  if e.terms.isEmpty then .error ⟨[], .empty, e⟩
  else if e.isComplete then .ok e
  else .error ⟨[], .danglingOperator, e⟩

/-- Append all tokens of the text. -/
def readOnto (e : Expression) (s : List Char) : Except Stop Expression :=
  match _hs : Text.trimStart s with
  | [] => e.atEnd
  | c :: cs =>
    match _ht : e.readToken (c :: cs) with
    | .error why => .error ⟨c :: cs, .rejected why, e⟩
    | .ok (e', rest) => readOnto e' rest
termination_by s.length
decreasing_by
  have h1 := length_lt_of_readToken _ht
  have h2 := Text.length_trimStart_le s
  rw [_hs] at h2
  omega

/-- The expression that a text spells. -/
def parse (text : String) : Except Malformed Expression :=
  match empty.readOnto text.toList with
  | .ok e => .ok e
  | .error stop =>
    .error ⟨Text.byteLength text.toList - Text.byteLength stop.unread, stop.reason, stop.soFar⟩

end Expression

namespace DieGroup

/-- The die group that a text spells, with nothing but blanks around it. What an expression could
go on with is left over here, so the place behind the group is where an operator was expected. -/
def parse (text : String) : Except Malformed DieGroup :=
  let s := text.toList
  let body := Text.trim s
  let offset := Text.byteLength s - Text.byteLength (Text.trimStart s)
  match Token.dieGroup body with
  | some (g, []) => .ok g
  | some (_, rest) =>
    .error ⟨offset + Text.byteLength body - Text.byteLength rest, .rejected .expectedOperator, .empty⟩
  | none =>
    .error ⟨offset, if body.isEmpty then .empty else .rejected .expectedTerm, .empty⟩

end DieGroup

end DiceEngine
