import V8JsiRuntime.Lib.Utf

/-!
# Json — reading JSON texts

A JSON text is a list of bytes.  It is cut into tokens, and the tokens are read by a machine with a
stack of the arrays and objects that are open; both go from left to right, so that what a text in
pieces is read as follows from the pieces.
-/

namespace V8JsiRuntime
namespace Lib

/-- A JSON value, with the members of an object in their order. -/
inductive Json
  | null
  | bool (value : Bool)
  | number (text : List UInt8)
  | string (text : List UInt8)
  | array (elements : List Json)
  | object (members : List (List UInt8 × Json))

namespace Json

/-! ## Tokens -/

inductive Token
  | beginArray
  | endArray
  | beginObject
  | endObject
  | nameSeparator
  | valueSeparator
  /-- A string with what stands between its quotes. -/
  | string (raw : List UInt8)
  /-- Anything else, up to the next space, quote or punctuation. -/
  | word (text : List UInt8)
  deriving DecidableEq, Repr

def IsWhitespace (b : UInt8) : Prop :=
  b = 0x20 ∨ b = 0x09 ∨ b = 0x0A ∨ b = 0x0D

instance : DecidablePred IsWhitespace :=
  fun _ => inferInstanceAs (Decidable (_ ∨ _))

def punctuation (b : UInt8) : Option Token :=
  if b = 0x5B then
    some .beginArray
  else if b = 0x5D then
    some .endArray
  else if b = 0x7B then
    some .beginObject
  else if b = 0x7D then
    some .endObject
  else if b = 0x3A then
    some .nameSeparator
  else if b = 0x2C then
    some .valueSeparator
  else
    none

/-- Where the lexer is. -/
inductive Lexer
  /-- In a word, if it is not empty. -/
  | outside (word : List UInt8)
  | inside (raw : List UInt8)
  /-- After a backslash in a string. -/
  | escaped (raw : List UInt8)
  deriving DecidableEq, Repr

namespace Lexer

def flush (word : List UInt8) : List Token :=
  if word = [] then [] else [.word word]

/-- The next byte, and the tokens that it completes. -/
def step : Lexer → UInt8 → Option (Lexer × List Token)
  | outside word, b =>
      if b = 0x22 then
        some (inside [], flush word)
      else if IsWhitespace b then
        some (outside [], flush word)
      else
        match punctuation b with
        | some token => some (outside [], flush word ++ [token])
        | none => some (outside (word ++ [b]), [])
  -- a control character may stand in no string, not even behind a backslash
  | inside raw, b =>
      if b < 0x20 then
        none
      else if b = 0x22 then
        some (outside [], [.string raw])
      else if b = 0x5C then
        some (escaped (raw ++ [b]), [])
      else
        some (inside (raw ++ [b]), [])
  | escaped raw, b => if b < 0x20 then none else some (inside (raw ++ [b]), [])

def lex : Lexer → List UInt8 → Option (Lexer × List Token)
  | lexer, [] => some (lexer, [])
  | lexer, b :: text => do
      let (lexer, tokens) ← lexer.step b
      let (lexer, tokens') ← lexer.lex text
      return (lexer, tokens ++ tokens')

end Lexer

/-- The tokens of a text that does not end in a string. -/
def tokens (text : List UInt8) : Option (List Token) :=
  match (Lexer.outside []).lex text with
  | some (.outside word, tokens) => some (tokens ++ Lexer.flush word)
  | _ => none

/-! ## Strings -/

def hexDigit (b : UInt8) : Option Nat :=
  if 0x30 ≤ b ∧ b ≤ 0x39 then
    some (b.toNat - 0x30)
  else if 0x41 ≤ b ∧ b ≤ 0x46 then
    some (b.toNat - 0x41 + 10)
  else if 0x61 ≤ b ∧ b ≤ 0x66 then
    some (b.toNat - 0x61 + 10)
  else
    none

/-- What a backslash makes of the byte behind it, which is no `u`. -/
def escapedByte (b : UInt8) : Option UInt8 :=
  if b = 0x22 ∨ b = 0x5C ∨ b = 0x2F then
    some b
  else if b = 0x62 then
    some 0x08
  else if b = 0x66 then
    some 0x0C
  else if b = 0x6E then
    some 0x0A
  else if b = 0x72 then
    some 0x0D
  else if b = 0x74 then
    some 0x09
  else
    none

/-- A byte of the text, or a UTF-16 unit from `\u` and four digits. -/
inductive Symbol
  | byte (b : UInt8)
  | unit (unit : UInt16)
  deriving DecidableEq, Repr

def symbols : List UInt8 → Option (List Symbol)
  | [] => some []
  | b :: raw =>
      if b = 0x5C then
        match raw with
        | [] => none
        | e :: raw =>
            if e = 0x75 then
              match raw with
              -- `\u` and four digits
              | d₁ :: d₂ :: d₃ :: d₄ :: raw => do
                  let v₁ ← hexDigit d₁
                  let v₂ ← hexDigit d₂
                  let v₃ ← hexDigit d₃
                  let v₄ ← hexDigit d₄
                  let rest ← symbols raw
                  return .unit (UInt16.ofNat (((v₁ * 16 + v₂) * 16 + v₃) * 16 + v₄)) :: rest
              | _ => none
            else do
              let c ← escapedByte e
              let rest ← symbols raw
              return .byte c :: rest
      else
        (symbols raw).map (.byte b :: ·)

/-- The bytes of the symbols; two units of a surrogate pair are one code point. -/
def encodeSymbols : List Symbol → List UInt8
  | [] => []
  | .byte b :: symbols => b :: encodeSymbols symbols
  -- a unit without its partner is a code point of its own
  | [.unit unit] => encodeCodePoint unit.toNat
  | .unit unit :: .byte b :: symbols =>
      encodeCodePoint unit.toNat ++ encodeSymbols (.byte b :: symbols)
  | .unit unit :: .unit next :: symbols =>
      if IsHighSurrogate unit ∧ IsLowSurrogate next then
        encodeCodePoint (combine unit next) ++ encodeSymbols symbols
      else
        encodeCodePoint unit.toNat ++ encodeSymbols (.unit next :: symbols)

/-- The string that a token stands for. -/
def unescape (raw : List UInt8) : Option (List UInt8) :=
  if isUtf8 raw then (symbols raw).map encodeSymbols else none

/-! ## Words -/

/-- How far a number is read. -/
inductive Number
  | start
  | minus
  /-- a zero, which no digit may follow -/
  | zero
  | digits
  | point
  | fraction
  | exponent
  | exponentSign
  | exponentDigits
  deriving DecidableEq, Repr

namespace Number

def step (number : Number) (b : UInt8) : Option Number :=
  let isDigit : Bool := 0x30 ≤ b ∧ b ≤ 0x39
  let isExponent : Bool := b = 0x65 ∨ b = 0x45
  match number with
  | start =>
      if b = 0x2D then
        some minus
      else if b = 0x30 then
        some zero
      else if isDigit then
        some digits
      else
        none
  | minus => if b = 0x30 then some zero else if isDigit then some digits else none
  | zero => if b = 0x2E then some point else if isExponent then some exponent else none
  | digits =>
      if isDigit then
        some digits
      else if b = 0x2E then
        some point
      else if isExponent then
        some exponent
      else
        none
  | point => if isDigit then some fraction else none
  | fraction => if isDigit then some fraction else if isExponent then some exponent else none
  | exponent =>
      if b = 0x2B ∨ b = 0x2D then
        some exponentSign
      else if isDigit then
        some exponentDigits
      else
        none
  | exponentSign | exponentDigits => if isDigit then some exponentDigits else none

def isComplete : Number → Bool
  | zero | digits | fraction | exponentDigits => true
  | _ => false

end Number

def bytes (s : String) : List UInt8 :=
  s.toList.map fun c => UInt8.ofNat c.toNat

/-- The value of a word. -/
def scalar (text : List UInt8) : Option Json :=
  if text = bytes "null" then
    some .null
  else if text = bytes "true" then
    some (.bool true)
  else if text = bytes "false" then
    some (.bool false)
  else
    match text.foldlM Number.step .start with
    | some last => if last.isComplete then some (.number text) else none
    | none => none

/-! ## Values -/

/-- An array or object that is open around the value that is read. -/
inductive Frame
  | array (elements : List Json)
  | object (members : List (List UInt8 × Json)) (name : List UInt8)

/-- What has been read, innermost first, and what must come next. -/
inductive Parser
  | value (stack : List Frame)
  /-- After `[` -/
  | firstElement (stack : List Frame)
  /-- After an element of an array -/
  | afterElement (elements : List Json) (stack : List Frame)
  /-- After `{` -/
  | firstName (stack : List Frame)
  /-- After the comma behind a member of an object -/
  | nextName (members : List (List UInt8 × Json)) (stack : List Frame)
  | afterName (members : List (List UInt8 × Json)) (name : List UInt8) (stack : List Frame)
  /-- After a member of an object -/
  | afterMember (members : List (List UInt8 × Json)) (stack : List Frame)
  | done (value : Json)

namespace Parser

/-- A value is complete. -/
def complete (value : Json) : List Frame → Parser
  | [] => done value
  | .array elements :: stack => afterElement (elements ++ [value]) stack
  | .object members name :: stack => afterMember (members ++ [(name, value)]) stack

def beginValue (stack : List Frame) : Token → Option Parser
  | .string raw => (unescape raw).map fun text => complete (.string text) stack
  | .word text => (scalar text).map fun value => complete value stack
  | .beginArray => some (firstElement stack)
  | .beginObject => some (firstName stack)
  | _ => none

def step : Parser → Token → Option Parser
  | value stack, token => beginValue stack token
  -- an empty array or object may end where its first entry could begin
  | firstElement stack, .endArray => some (complete (.array []) stack)
  | firstElement stack, token => beginValue (.array [] :: stack) token
  | afterElement elements stack, .valueSeparator => some (value (.array elements :: stack))
  | afterElement elements stack, .endArray => some (complete (.array elements) stack)
  | firstName stack, .endObject => some (complete (.object []) stack)
  | firstName stack, .string raw => (unescape raw).map fun name => afterName [] name stack
  | nextName members stack, .string raw =>
      (unescape raw).map fun name => afterName members name stack
  | afterName members name stack, .nameSeparator => some (value (.object members name :: stack))
  | afterMember members stack, .valueSeparator => some (nextName members stack)
  | afterMember members stack, .endObject => some (complete (.object members) stack)
  | _, _ => none

end Parser

/-- The value that a text stands for. -/
def parse (text : List UInt8) : Option Json := do
  match (← tokens text).foldlM Parser.step (.value []) with
  -- nothing may come behind the value
  | some (.done value) => some value
  | _ => none

end Json

end Lib
end V8JsiRuntime
