import QbuemStack.Base.Octets

/-! The Base64 decoder of the crypto module. -/
namespace Crypto

open Octets

inductive Errc where
  | illegalByteSequence
  | valueTooLarge
  | badMessage
deriving DecidableEq, Repr

namespace Base64

def kUrlAlpha : Bytes := ascii "ABCDEFGHIJKLMNOPQRSTUVWXYZabcdefghijklmnopqrstuvwxyz0123456789-_"

def decodeTable (alpha : Bytes) (c : UInt8) : UInt8 :=
  if c = 0x3D then 0xFE
  else match alpha.findIdx? (· == c) with
    | some i => UInt8.ofNat i
    | none => 0xFF

def stripPadding (src : Bytes) : Bytes := (src.reverse.dropWhile (· == 0x3D)).reverse

def decodeGroups (table : UInt8 → UInt8) : Bytes → Except Errc Bytes
  | a :: b :: c :: d :: rest =>
    let (a, b, c, d) := (table a, table b, table c, table d)
    if a ||| b ||| c ||| d = 0xFF then .error .illegalByteSequence
    else (decodeGroups table rest).map fun out =>
      [a <<< 2 ||| b >>> 4, b <<< 4 ||| c >>> 2, c <<< 6 ||| d] ++ out
  | [a, b, c] =>
    let (a, b, c) := (table a, table b, table c)
    if a ||| b ||| c = 0xFF then .error .illegalByteSequence
    else .ok [a <<< 2 ||| b >>> 4, b <<< 4 ||| c >>> 2]
  | [a, b] =>
    let (a, b) := (table a, table b)
    if a ||| b = 0xFF then .error .illegalByteSequence else .ok [a <<< 2 ||| b >>> 4]
  | [_] => .error .illegalByteSequence
  | [] => .ok []

def decodeImpl (table : UInt8 → UInt8) (src : Bytes) (dstSize : Nat) : Except Errc Bytes :=
  let text := stripPadding src
  let tailChars := text.length % 4
  if tailChars = 1 then .error .illegalByteSequence
  else
    let outLen := text.length / 4 * 3 + if tailChars = 2 then 1 else if tailChars = 3 then 2 else 0
    if outLen > dstSize then .error .valueTooLarge else decodeGroups table text

def decodedMax (length : Nat) : Nat := (length + 3) / 4 * 3

end Base64

def base64urlDecode (encoded : Bytes) : Except Errc Bytes :=
  Base64.decodeImpl (Base64.decodeTable Base64.kUrlAlpha) encoded (Base64.decodedMax encoded.length + 3)

end Crypto
