import TagStamp.Text.Basic

namespace TagStamp.Utf8

inductive Reason
  | start
  | continuation
  | truncated
deriving DecidableEq, Repr

def Reason.text : Reason → String
  | .start => "invalid start byte"
  | .continuation => "invalid continuation byte"
  | .truncated => "unexpected end of data"

/-- An ill-formed sequence: its position, its first octet, and how many octets belong to it. -/
structure Error where
  position : Nat
  octet : UInt8
  length : Nat
  reason : Reason
deriving DecidableEq, Repr

def Error.message (e : Error) : String :=
  if e.length = 1 then
    "'utf-8' codec can't decode byte 0x" ++ String.ofList (Text.hex 2 e.octet.toNat) ++ " in position " ++
      toString e.position ++ ": " ++ e.reason.text
  else
    "'utf-8' codec can't decode bytes in position " ++ toString e.position ++ "-" ++
      toString (e.position + e.length - 1) ++ ": " ++ e.reason.text

/-- Whether an octet may follow the first octet of a character. The first octet narrows the range, which
keeps out overlong forms, surrogates and numbers beyond the last code point. -/
def isSecond (first second : UInt8) : Bool :=
  (if first = 0xe0 then 0xa0 else if first = 0xf0 then 0x90 else 0x80) ≤ second &&
    second ≤ (if first = 0xed then 0x9f else if first = 0xf4 then 0x8f else 0xbf)

def isContinuation (octet : UInt8) : Bool :=
  0x80 ≤ octet && octet ≤ 0xbf

/-- The code point whose leading bits stand in `high` and the next six in a continuation octet. -/
def extend (high : Nat) (octet : UInt8) : Nat :=
  high * 64 + octet.toNat % 64

/-- Decode the octets from the given position on. -/
def decodeFrom (position : Nat) : List UInt8 → Except Error Text
  | [] => .ok []
  | a :: rest =>
    let fail (length : Nat) (reason : Reason) : Except Error Text :=
      .error ⟨position, a, length, reason⟩
    if a < 0x80 then
      return Char.ofNat a.toNat :: (← decodeFrom (position + 1) rest)
    else if a < 0xc2 || 0xf4 < a then fail 1 .start
    else if a < 0xe0 then
      match rest with
      | [] => fail 1 .truncated
      | b :: rest =>
        if isSecond a b then
          return Char.ofNat (extend (a.toNat % 32) b) :: (← decodeFrom (position + 2) rest)
        else fail 1 .continuation
    else if a < 0xf0 then
      match rest with
      | [] => fail 1 .truncated
      | [b] => if isSecond a b then fail 2 .truncated else fail 1 .continuation
      | b :: c :: rest =>
        if !isSecond a b then fail 1 .continuation
        else if !isContinuation c then fail 2 .continuation
        else
          return Char.ofNat (extend (extend (a.toNat % 16) b) c) :: (← decodeFrom (position + 3) rest)
    else
      match rest with
      | [] => fail 1 .truncated
      | [b] => if isSecond a b then fail 2 .truncated else fail 1 .continuation
      | [b, c] =>
        if !isSecond a b then fail 1 .continuation
        else if !isContinuation c then fail 2 .continuation
        else fail 3 .truncated
      | b :: c :: d :: rest =>
        if !isSecond a b then fail 1 .continuation
        else if !isContinuation c then fail 2 .continuation
        else if !isContinuation d then fail 3 .continuation
        else
          return Char.ofNat (extend (extend (extend (a.toNat % 8) b) c) d) ::
            (← decodeFrom (position + 4) rest)

def decode (octets : List UInt8) : Except Error Text :=
  decodeFrom 0 octets

def encode (text : Text) : List UInt8 :=
  text.flatMap String.utf8EncodeChar

end TagStamp.Utf8
