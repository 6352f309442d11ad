import FluentBuilder.Text.Quoted

/-!
The encoding of characters as one to four bytes. Reading it back stops at the first bytes that
are no character.
-/

namespace FluentBuilder.Text.Utf8

def encode (text : List Char) : List UInt8 := text.flatMap String.utf8EncodeChar

/-! ### Reading -/

/-- Why bytes are no character. -/
inductive Reason where
  | invalidStart
  | invalidContinuation
  | endOfData
deriving Repr, DecidableEq

def Reason.words : Reason → String
  | .invalidStart => "invalid start byte"
  | .invalidContinuation => "invalid continuation byte"
  | .endOfData => "unexpected end of data"

/-- Bytes that are no character, with the offset of the first of them. -/
structure Fault where
  offset : Nat
  bytes : List UInt8
  reason : Reason
deriving Repr, DecidableEq

def byteText (byte : UInt8) : String := String.ofList (hexDigits 2 byte.toNat)

def Fault.message (fault : Fault) : String :=
  let place := match fault.bytes with
    | [byte] => "byte 0x" ++ byteText byte ++ " in position " ++ toString fault.offset
    | bytes => "bytes in position " ++ toString fault.offset ++ "-" ++
        toString (fault.offset + bytes.length - 1)
  "'utf-8' codec can't decode " ++ place ++ ": " ++ fault.reason.words

/-- Whether a byte can continue a character. -/
def isContinuation (byte : UInt8) : Bool := 0x80 ≤ byte && byte ≤ 0xBF

/-- Whether a byte can be the second of a character that starts with `lead`: this leaves out
characters that have a shorter form, surrogates and code points that are too large. -/
def isSecond (lead byte : UInt8) : Bool :=
  isContinuation byte &&
    (if lead == 0xE0 then 0xA0 ≤ byte
    else if lead == 0xED then byte ≤ 0x9F
    else if lead == 0xF0 then 0x90 ≤ byte
    else if lead == 0xF4 then byte ≤ 0x8F
    else true)

/-- The number of bytes of a character by its first; zero if none starts with it. -/
def width (lead : UInt8) : Nat :=
  if lead < 0x80 then 1
  else if lead < 0xC2 then 0
  else if lead < 0xE0 then 2
  else if lead < 0xF0 then 3
  else if lead < 0xF5 then 4
  else 0

/-- The bits that a continuation byte adds. -/
def low (byte : UInt8) : Nat := byte.toNat % 64

/-- The text of some bytes, of which the first stands at the given offset. -/
def decodeFrom (offset : Nat) : List UInt8 → Except Fault (List Char)
  | [] => .ok []
  | a :: rest =>
    let fault (bytes : List UInt8) (reason : Reason) : Except Fault (List Char) :=
      .error ⟨offset, bytes, reason⟩
    if width a == 1 then (decodeFrom (offset + 1) rest).map (Char.ofNat a.toNat :: ·)
    else if width a == 0 then fault [a] .invalidStart
    else
      match rest with
      | [] => fault [a] .endOfData
      | b :: rest =>
        if !isSecond a b then fault [a] .invalidContinuation
        else if width a == 2 then
          (decodeFrom (offset + 2) rest).map (Char.ofNat (a.toNat % 32 * 64 + low b) :: ·)
        else
          match rest with
          | [] => fault [a, b] .endOfData
          | c :: rest =>
            if !isContinuation c then fault [a, b] .invalidContinuation
            else if width a == 3 then
              (decodeFrom (offset + 3) rest).map
                (Char.ofNat ((a.toNat % 16 * 64 + low b) * 64 + low c) :: ·)
            else
              match rest with
              | [] => fault [a, b, c] .endOfData
              | d :: rest =>
                if !isContinuation d then fault [a, b, c] .invalidContinuation
                else
                  (decodeFrom (offset + 4) rest).map
                    (Char.ofNat (((a.toNat % 8 * 64 + low b) * 64 + low c) * 64 + low d) :: ·)

def decode (bytes : List UInt8) : Except Fault (List Char) := decodeFrom 0 bytes

end FluentBuilder.Text.Utf8
