import QbuemStack.Base.Octets

/-! WebSocket frames (RFC 6455, section 5.2) and the UTF-8 check of the server. -/
namespace QbuemStack.Ws

open Octets

inductive Opcode
  | continuation | text | binary | close | ping | pong
  | reserved (code : UInt8)
  deriving DecidableEq

namespace Opcode

def code : Opcode → UInt8
  | continuation => 0x0
  | text => 0x1
  | binary => 0x2
  | close => 0x8
  | ping => 0x9
  | pong => 0xA
  | reserved code => code

def ofCode (code : UInt8) : Opcode :=
  if code = 0x0 then continuation
  else if code = 0x1 then text
  else if code = 0x2 then binary
  else if code = 0x8 then close
  else if code = 0x9 then ping
  else if code = 0xA then pong
  else reserved code

end Opcode

structure WsFrame where
  opcode : Opcode := .text
  fin : Bool := true
  rsv1 : Bool := false
  rsv2 : Bool := false
  rsv3 : Bool := false
  masked : Bool := false
  payload : Bytes := []
  deriving DecidableEq

def firstByte (fin : Bool) (opcode : Opcode) : UInt8 := (if fin then 0x80 else 0x00) ||| (opcode.code &&& 0x0F)

def maskBit (mask : Bool) : UInt8 := if mask then 0x80 else 0x00

def encodeHeaderWith (opcode : Opcode) (payloadLen : Nat) (fin mask : Bool) (key : Bytes) : Bytes :=
  firstByte fin opcode ::
    (if payloadLen < 126 then [maskBit mask ||| UInt8.ofNat payloadLen]
    else if payloadLen ≤ 0xFFFF then [maskBit mask ||| 126, UInt8.ofNat (payloadLen / 2 ^ 8), UInt8.ofNat payloadLen]
    else (maskBit mask ||| 127) :: [7, 6, 5, 4, 3, 2, 1, 0].map fun i => UInt8.ofNat (payloadLen / 2 ^ (i * 8))) ++
    if mask then key else []

def lengthBytes (mask : Bool) (payloadLen : Nat) : Bytes :=
  if payloadLen < 126 then [maskBit mask ||| UInt8.ofNat payloadLen]
  else if payloadLen ≤ 0xFFFF then [maskBit mask ||| 126] ++ [UInt8.ofNat (payloadLen / 2 ^ 8), UInt8.ofNat payloadLen]
  else [maskBit mask ||| 127] ++ [7, 6, 5, 4, 3, 2, 1, 0].map fun i => UInt8.ofNat (payloadLen / 2 ^ (i * 8))

def xorMask (key data : Bytes) : Bytes := data.mapIdx fun i byte => byte ^^^ key.getD (i % 4) 0

def maskingKey : Bytes := [0x37, 0xfa, 0x21, 0x3d]

def encodeFrameWith (frame : WsFrame) (mask : Bool) : Bytes :=
  firstByte frame.fin frame.opcode ::
    (lengthBytes mask frame.payload.length ++
      if mask then maskingKey ++ xorMask maskingKey frame.payload else frame.payload)

def encodeHeader (opcode : Opcode) (payloadLen : Nat) : Bytes := encodeHeaderWith opcode payloadLen true false []

def encodeFrame (opcode : Opcode) (payload : Bytes) : Bytes :=
  encodeFrameWith { opcode := opcode, payload := payload } false

/-- The header by itself with the payload behind it is the frame. -/
theorem encodeHeaderWith_append (frame : WsFrame) (mask : Bool) :
    encodeHeaderWith frame.opcode frame.payload.length frame.fin mask maskingKey ++
      (if mask then xorMask maskingKey frame.payload else frame.payload) = encodeFrameWith frame mask := by
  cases mask <;> simp [encodeHeaderWith, encodeFrameWith, lengthBytes]

theorem encodeHeader_append (opcode : Opcode) (payload : Bytes) :
    encodeHeader opcode payload.length ++ payload = encodeFrame opcode payload := by
  simp [encodeHeader, encodeHeaderWith, encodeFrame, encodeFrameWith, lengthBytes]

def readLength (bytes : Bytes) : Nat := bytes.foldl (fun length byte => length * 2 ^ 8 + byte.toNat) 0

structure FrameHeader where
  first : UInt8
  masked : Bool
  payloadLen : Nat
  size : Nat
  deriving DecidableEq

def readHeader : Bytes → Option FrameHeader
  | b0 :: b1 :: rest =>
    let masked := b1 &&& 0x80 != 0
    let payloadLen := (b1 &&& 0x7F).toNat
    if payloadLen = 126 then
      if rest.length < 2 then none else some ⟨b0, masked, readLength (rest.take 2), 4⟩
    else if payloadLen = 127 then
      if rest.length < 8 then none else some ⟨b0, masked, readLength (rest.take 8), 10⟩
    else some ⟨b0, masked, payloadLen, 2⟩
  | _ => none

def maxFramePayload : Nat := 16 * 1024 * 1024

inductive Decoded
  | incomplete
  | messageSize
  | frame (frame : WsFrame) (consumed : Nat)
  deriving DecidableEq

namespace FrameHeader

def payloadPos (h : FrameHeader) : Nat := if h.masked then h.size + 4 else h.size

def toFrame (h : FrameHeader) (data : Bytes) : WsFrame where
  opcode := .ofCode (h.first &&& 0x0F)
  fin := h.first &&& 0x80 != 0
  rsv1 := h.first &&& 0x40 != 0
  rsv2 := h.first &&& 0x20 != 0
  rsv3 := h.first &&& 0x10 != 0
  masked := h.masked
  payload :=
    let payload := slice data h.payloadPos h.payloadLen
    if h.masked then xorMask (slice data h.size 4) payload else payload

end FrameHeader

def decodeFrame (data : Bytes) : Decoded :=
  match readHeader data with
  | none => .incomplete
  | some h =>
    if maxFramePayload < h.payloadLen then .messageSize
    else if h.masked && data.length < h.size + 4 then .incomplete
    else if data.length < h.payloadPos + h.payloadLen then .incomplete
    else .frame (h.toFrame data) (h.payloadPos + h.payloadLen)

theorem readHeader_append {data : Bytes} {h : FrameHeader} (hRead : readHeader data = some h) (more : Bytes) :
    readHeader (data ++ more) = some h ∧ h.size ≤ data.length ∧ 2 ≤ h.size := by
  match data, hRead with
  | b0 :: b1 :: rest, hRead =>
    simp only [readHeader, List.cons_append, List.length_cons] at hRead ⊢
    split_ifs at hRead with hMedium hShort hLong hShort <;> cases hRead
    · rw [if_pos hMedium, if_neg (by rw [List.length_append]; omega),
        List.take_append_of_le_length (by omega)]
      exact ⟨rfl, by dsimp only; omega, by dsimp only; omega⟩
    · rw [if_neg hMedium, if_pos hLong, if_neg (by rw [List.length_append]; omega),
        List.take_append_of_le_length (by omega)]
      exact ⟨rfl, by dsimp only; omega, by dsimp only; omega⟩
    · rw [if_neg hMedium, if_neg hLong]
      exact ⟨rfl, by dsimp only; omega, by dsimp only; omega⟩

theorem FrameHeader.size_le_payloadPos (h : FrameHeader) : h.size ≤ h.payloadPos := by
  unfold payloadPos
  split_ifs <;> omega

theorem FrameHeader.toFrame_append (h : FrameHeader) (data more : Bytes)
    (hComplete : h.payloadPos + h.payloadLen ≤ data.length) : h.toFrame (data ++ more) = h.toFrame data := by
  unfold toFrame
  rw [slice_append _ _ _ _ hComplete]
  cases hMasked : h.masked with
  | false => rfl
  | true =>
    have hKey : h.size + 4 ≤ data.length := by
      rw [payloadPos, if_pos hMasked] at hComplete
      omega
    rw [slice_append _ _ _ _ hKey]

/-- What is decoded does not depend on what follows. -/
theorem decodeFrame_append {data : Bytes} {f : WsFrame} {n : Nat} (hFrame : decodeFrame data = .frame f n)
    (more : Bytes) : decodeFrame (data ++ more) = .frame f n ∧ n ≤ data.length ∧ 2 ≤ n := by
  unfold decodeFrame at hFrame ⊢
  cases hRead : readHeader data with
  | none => rw [hRead] at hFrame; cases hFrame
  | some h =>
    obtain ⟨hMore, -, hSize⟩ := readHeader_append hRead more
    rw [hRead] at hFrame
    rw [hMore]
    simp only at hFrame ⊢
    split_ifs at hFrame with hLarge hKey hShort
    obtain ⟨rfl, rfl⟩ := Decoded.frame.inj hFrame
    have hPos := h.size_le_payloadPos
    rw [if_neg hLarge, if_neg, if_neg (by rw [List.length_append]; omega),
      h.toFrame_append _ _ (by omega)]
    · exact ⟨rfl, by omega, by omega⟩
    · simp only [Bool.and_eq_true, decide_eq_true_eq, not_and, List.length_append] at hKey ⊢
      intro hMasked
      have := hKey hMasked
      omega

theorem decodeFrame_append_messageSize {data : Bytes} (hLarge : decodeFrame data = .messageSize)
    (more : Bytes) : decodeFrame (data ++ more) = .messageSize := by
  unfold decodeFrame at hLarge ⊢
  cases hRead : readHeader data with
  | none => rw [hRead] at hLarge; cases hLarge
  | some h =>
    rw [hRead] at hLarge
    rw [(readHeader_append hRead more).1]
    simp only at hLarge ⊢
    split_ifs at hLarge with hOver
    rw [if_pos hOver]

/-- A frame with four bits of opcode, no reserved bit and a payload that the decoder takes. -/
structure PlainFrame where
  code : UInt8
  small : code < 16
  fin : Bool
  payload : Bytes
  fits : payload.length ≤ maxFramePayload

def PlainFrame.frame (f : PlainFrame) (masked : Bool) : WsFrame :=
  { opcode := .ofCode f.code, fin := f.fin, masked := masked, payload := f.payload }

theorem xorMask_xorMask (key data : Bytes) : xorMask key (xorMask key data) = data := by
  apply List.ext_getElem
  · simp [xorMask]
  · intro i hLeft hRight
    simp only [xorMask, List.getElem_mapIdx]
    rw [UInt8.xor_assoc, UInt8.xor_self, UInt8.xor_zero]

theorem first_byte (fin : Bool) : ∀ n < 16, let b := firstByte fin (.ofCode (UInt8.ofNat n))
    b &&& 0x0F = UInt8.ofNat n ∧ (b &&& 0x80 != 0) = fin ∧ (b &&& 0x40 != 0) = false ∧ (b &&& 0x20 != 0) = false ∧
      (b &&& 0x10 != 0) = false := by
  cases fin <;> decide +kernel

theorem second_byte (mask : Bool) : ∀ n < 128, ((maskBit mask ||| UInt8.ofNat n) &&& 0x80 != 0) = mask ∧
    ((maskBit mask ||| UInt8.ofNat n) &&& 0x7F).toNat = n := by
  cases mask <;> decide +kernel

theorem readHeader_lengthBytes (b0 : UInt8) (mask : Bool) {n : Nat} (hn : n ≤ maxFramePayload) (more : Bytes) :
    readHeader (b0 :: (lengthBytes mask n ++ more)) = some ⟨b0, mask, n, 1 + (lengthBytes mask n).length⟩ := by
  unfold maxFramePayload at hn
  unfold lengthBytes
  split_ifs with hShort hMedium
  · obtain ⟨hMask, hLength⟩ := second_byte mask n (by omega)
    simp only [List.cons_append, List.nil_append, readHeader, hMask, hLength]
    rw [if_neg (by omega), if_neg (by omega)]
    rfl
  · have hByte : ((maskBit mask ||| 126) &&& 0x80 != 0) = mask ∧ ((maskBit mask ||| 126) &&& 0x7F).toNat = 126 :=
      second_byte mask 126 (by omega)
    have hValue : readLength [UInt8.ofNat (n / 2 ^ 8), UInt8.ofNat n] = n := by
      simp only [readLength, List.foldl_cons, List.foldl_nil, UInt8.toNat_ofNat']
      omega
    simp only [List.cons_append, List.nil_append, readHeader, hByte, if_true]
    rw [if_neg (by simp)]
    exact congrArg (fun length => some (FrameHeader.mk b0 mask length 4)) hValue
  · have hByte : ((maskBit mask ||| 127) &&& 0x80 != 0) = mask ∧ ((maskBit mask ||| 127) &&& 0x7F).toNat = 127 :=
      second_byte mask 127 (by omega)
    have hValue : readLength ([7, 6, 5, 4, 3, 2, 1, 0].map fun i => UInt8.ofNat (n / 2 ^ (i * 8))) = n := by
      simp only [readLength, List.map_cons, List.map_nil, List.foldl_cons, List.foldl_nil, UInt8.toNat_ofNat']
      omega
    simp only [List.cons_append, List.nil_append, readHeader, hByte, if_true]
    rw [if_neg (by omega), if_neg (by simp)]
    exact congrArg (fun length => some (FrameHeader.mk b0 mask length 10)) hValue

variable (f : PlainFrame) (masked mask : Bool) (rest : Bytes)

/-- An encoded frame is decoded to itself, whatever follows. -/
theorem decodeFrame_encoded : decodeFrame (encodeFrameWith (f.frame masked) mask ++ rest) =
    .frame (f.frame mask) (encodeFrameWith (f.frame masked) mask).length := by
  have hFirst := first_byte f.fin f.code.toNat f.small
  rw [UInt8.ofNat_toNat] at hFirst
  simp only [encodeFrameWith, PlainFrame.frame, List.cons_append, List.append_assoc] at hFirst ⊢
  rw [decodeFrame, readHeader_lengthBytes _ mask f.fits]
  generalize firstByte f.fin (.ofCode f.code) = first at hFirst ⊢
  obtain ⟨hOpcode, hFin, h1, h2, h3⟩ := hFirst
  simp only [if_neg (not_lt.mpr f.fits), FrameHeader.toFrame, FrameHeader.payloadPos, hOpcode, hFin, h1, h2, h3]
  have hFront : (first :: lengthBytes mask f.payload.length).length = 1 + (lengthBytes mask f.payload.length).length :=
    Nat.add_comm _ 1
  simp only [← List.cons_append, ← hFront]
  generalize first :: lengthBytes mask f.payload.length = front
  have hKey : maskingKey.length = 4 := rfl
  cases mask with
  | false => simp [slice]
  | true =>
    have hMasked : (xorMask maskingKey f.payload).length = f.payload.length := by simp [xorMask]
    have hSecond : slice (front ++ (maskingKey ++ (xorMask maskingKey f.payload ++ rest))) (front.length + 4)
        f.payload.length = xorMask maskingKey f.payload := by
      rw [slice, ← List.append_assoc, List.drop_left' (by simp [hKey]), List.take_left' hMasked]
    have hThird : slice (front ++ (maskingKey ++ (xorMask maskingKey f.payload ++ rest))) front.length 4 =
        maskingKey := by
      rw [slice, List.drop_left, List.take_left' hKey]
    simp only [if_true, Bool.true_and, decide_eq_true_eq, hSecond, hThird, xorMask_xorMask, List.length_append,
      List.append_assoc, hKey, hMasked]
    rw [if_neg (by omega), if_neg (by omega), Nat.add_assoc]

/-- A frame is decoded as it was encoded, whatever follows it; no part of it is; and the header by
itself with the payload behind it is the same bytes. -/
theorem frame_codec :
    decodeFrame (encodeFrameWith (f.frame masked) mask ++ rest) =
        .frame (f.frame mask) (encodeFrameWith (f.frame masked) mask).length ∧
      (∀ part, part <+: encodeFrameWith (f.frame masked) mask → part ≠ encodeFrameWith (f.frame masked) mask →
        decodeFrame part = .incomplete) ∧
      encodeHeaderWith (f.frame masked).opcode f.payload.length f.fin mask maskingKey ++
        (if mask then xorMask maskingKey f.payload else f.payload) = encodeFrameWith (f.frame masked) mask := by
  have hDecoded := decodeFrame_encoded f masked mask
  refine ⟨hDecoded rest, ?_, ?_⟩
  · rintro part ⟨more, hPart⟩ hProper
    have hWhole := hDecoded []
    rw [List.append_nil, ← hPart] at hWhole
    cases hRead : decodeFrame part with
    | incomplete => rfl
    | messageSize =>
      rw [decodeFrame_append_messageSize hRead more] at hWhole
      cases hWhole
    | frame g n =>
      obtain ⟨hMore, hLe, -⟩ := decodeFrame_append hRead more
      cases hMore.symm.trans hWhole
      rw [List.length_append] at hLe
      have hNil : more = [] := List.length_eq_zero_iff.mp (by omega)
      rw [hNil, List.append_nil] at hPart
      exact absurd hPart hProper
  · exact encodeHeaderWith_append (f.frame masked) mask

/-- A masked ping frame, with a byte of the next frame behind it. -/
theorem frame_codec_ping :
    let f : PlainFrame := ⟨0x9, by decide, true, ascii "hi", by decide⟩
    encodeFrameWith (f.frame true) true = [0x89, 0x82, 0x37, 0xfa, 0x21, 0x3d, 0x5f, 0x93] ∧
      decodeFrame (encodeFrameWith (f.frame true) true ++ [0x81]) = .frame (f.frame true) 8 :=
  ⟨by decide +kernel, (frame_codec _ true true [0x81]).1⟩

def utf8Lead (c : UInt8) : Option (Nat × Nat) :=
  if c &&& 0xE0 = 0xC0 then if c < 0xC2 then none else some (1, (c &&& 0x1F).toNat)
  else if c &&& 0xF0 = 0xE0 then some (2, (c &&& 0x0F).toNat)
  else if c &&& 0xF8 = 0xF0 then if c > 0xF4 then none else some (3, (c &&& 0x07).toNat)
  else none

def utf8Tail (cp : Nat) : Bytes → Option Nat
  | [] => some cp
  | cc :: rest => if cc &&& 0xC0 ≠ 0x80 then none else utf8Tail (cp * 2 ^ 6 + (cc &&& 0x3F).toNat) rest

def utf8Refused (extra cp : Nat) : Bool :=
  extra = 2 && cp < 0x800 || extra = 3 && cp < 0x10000 || 0xD800 ≤ cp && cp ≤ 0xDFFF || 0x10FFFF < cp

def utf8Loop : Nat → Bytes → Bool
  | _, [] => true
  | 0, _ => true
  | fuel + 1, c :: rest =>
    if c < 0x80 then utf8Loop fuel rest
    else
      match utf8Lead c with
      | none => false
      | some (extra, cp) =>
        if rest.length < extra then false
        else
          match utf8Tail cp (rest.take extra) with
          | none => false
          | some cp => if utf8Refused extra cp then false else utf8Loop fuel (rest.drop extra)

def wsIsValidUtf8 (data : Bytes) : Bool := utf8Loop data.length data

end QbuemStack.Ws
