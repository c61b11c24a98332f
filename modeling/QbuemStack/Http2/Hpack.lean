import QbuemStack.Http.Response

/-! HPACK over the static table alone. Neither side keeps a dynamic table or a Huffman code. -/
namespace QbuemStack.Http2.Hpack

open Octets Http
open UInt8 (ofNat)

def staticTable : List (Bytes × Bytes) :=
  [("", ""), (":authority", ""), (":method", "GET"), (":method", "POST"), (":path", "/"),
    (":path", "/index.html"), (":scheme", "http"), (":scheme", "https"), (":status", "200"),
    (":status", "204"), (":status", "206"), (":status", "304"), (":status", "400"),
    (":status", "404"), (":status", "500"), ("accept-charset", ""),
    ("accept-encoding", "gzip, deflate"), ("accept-language", ""), ("accept-ranges", ""),
    ("accept", ""), ("access-control-allow-origin", ""), ("age", ""), ("allow", ""),
    ("authorization", ""), ("cache-control", ""), ("content-disposition", ""),
    ("content-encoding", ""), ("content-language", ""), ("content-length", ""),
    ("content-location", ""), ("content-range", ""), ("content-type", ""), ("cookie", ""),
    ("date", ""), ("etag", ""), ("expect", ""), ("expires", ""), ("from", ""), ("host", ""),
    ("if-match", ""), ("if-modified-since", ""), ("if-none-match", ""), ("if-range", ""),
    ("if-unmodified-since", ""), ("last-modified", ""), ("link", ""), ("location", ""),
    ("max-forwards", ""), ("proxy-authenticate", ""), ("proxy-authorization", ""), ("range", ""),
    ("referer", ""), ("refresh", ""), ("retry-after", ""), ("server", ""), ("set-cookie", ""),
    ("strict-transport-security", ""), ("transfer-encoding", ""), ("user-agent", ""),
    ("vary", ""), ("via", ""), ("www-authenticate", "")].map fun e => (ascii e.1, ascii e.2)

def tableEntry (index : Nat) : Bytes × Bytes := staticTable.getD index ([], [])

/-- Seven bits each, summed in 64 bits and clamped to 32, until a byte without its top bit. -/
def decodeContinuation (value shift : Nat) : Bytes → Nat × Bytes
  | [] => (value, [])
  | byte :: rest =>
    let sum := min (value + byte.toNat % 128 * 2 ^ shift % 2 ^ 64) 0xFFFFFFFF
    if byte.toNat < 128 then (sum, rest)
    else if 64 ≤ shift + 7 then (sum, rest)
    else decodeContinuation sum (shift + 7) rest

def decodeInteger (prefixBits : Nat) : Bytes → Nat × Bytes
  | [] => (0, [])
  | first :: rest =>
    let value := first.toNat % 2 ^ prefixBits
    if value < 2 ^ prefixBits - 1 then (value, rest) else decodeContinuation value 0 rest

def decodeString (data : Bytes) : Bytes × Bytes :=
  let (length, rest) := decodeInteger 7 data
  (rest.take length, rest.drop length)

def decodeLiteral (prefixBits : Nat) (data : Bytes) : (Bytes × Bytes) × Bytes :=
  let (nameIndex, rest) := decodeInteger prefixBits data
  let (name, rest) :=
    if 0 < nameIndex ∧ nameIndex < 62 then ((tableEntry nameIndex).1, rest) else decodeString rest
  let (value, rest) := decodeString rest
  ((name, value), rest)

def decodeField (data : Bytes) : Option (Bytes × Bytes) × Bytes :=
  match data with
  | [] => (none, [])
  | first :: rest =>
    if first &&& 0x80 ≠ 0 then
      let (index, rest) := decodeInteger 7 data
      (if 0 < index ∧ index < 62 then some (tableEntry index) else none, rest)
    else if first &&& 0xC0 = 0x40 then
      let (field, rest) := decodeLiteral 6 data
      (some field, rest)
    else if first &&& 0xF0 = 0x00 then
      let (field, rest) := decodeLiteral 4 data
      (some field, rest)
    else if first &&& 0xF0 = 0x10 then
      let (field, rest) := decodeLiteral 4 data
      (some field, rest)
    else if first &&& 0xE0 = 0x20 then (none, (decodeInteger 5 data).2)
    else (none, rest)

def decodeFields : Nat → Bytes → HeaderMap → HeaderMap
  | 0, _, headers => headers
  | _ + 1, [], headers => headers
  | rounds + 1, first :: rest, headers =>
    let (field, left) := decodeField (first :: rest)
    decodeFields rounds left (field.elim headers fun f => headers.set f.1 f.2)

def decode (data : Bytes) : HeaderMap := decodeFields data.length data .empty

def matchIndices (name value : Bytes) : List (Bytes × Bytes) → Nat → Nat → Nat × Nat
  | [], _, nameMatch => (0, nameMatch)
  | (tname, tvalue) :: rest, i, nameMatch =>
    if tname = name then
      let nameMatch := if nameMatch = 0 then i else nameMatch
      if tvalue = value then (i, nameMatch) else matchIndices name value rest (i + 1) nameMatch
    else matchIndices name value rest (i + 1) nameMatch

def encodeContinuation (value : Nat) : Bytes :=
  if value < 128 then [UInt8.ofNat value]
  else UInt8.ofNat (value % 128 ||| 0x80) :: encodeContinuation (value / 128)

def encodeInteger (value prefixBits : Nat) (prefixByte : UInt8) : Bytes :=
  let maxPrefix := 2 ^ prefixBits - 1
  if value < maxPrefix then [prefixByte ||| UInt8.ofNat value]
  else (prefixByte ||| UInt8.ofNat maxPrefix) :: encodeContinuation (value - maxPrefix)

def encodeString (str : Bytes) : Bytes := encodeInteger (str.length % 2 ^ 32) 7 0x00 ++ str

def encodeField (field : Bytes × Bytes) : Bytes :=
  let (full, nameMatch) := matchIndices field.1 field.2 (staticTable.drop 1) 1 0
  if 0 < full then encodeInteger full 7 0x80
  else if 0 < nameMatch then encodeInteger nameMatch 4 0x00 ++ encodeString field.2
  else 0x00 :: (encodeString field.1 ++ encodeString field.2)

def encode (order : MapOrder) (headers : HeaderMap) : Bytes :=
  (order.visit headers.entries).flatMap encodeField

variable (n : Nat) (data : Bytes) (field : Bytes × Bytes)

theorem decodeContinuation_encode (value shift : Nat) (rest : Bytes) (hFits : value + n * 2 ^ shift < 2 ^ 32) :
    decodeContinuation value shift (encodeContinuation n ++ rest) = (value + n * 2 ^ shift, rest) := by
  induction n using Nat.strongRecOn generalizing value shift with
  | ind n ih =>
    unfold encodeContinuation
    split_ifs with hSmall
    · have hByte : (ofNat n).toNat = n := by
        rw [UInt8.toNat_ofNat']
        omega
      have hSum : min (value + n % 128 * 2 ^ shift % 2 ^ 64) 0xFFFFFFFF = value + n * 2 ^ shift := by
        rw [Nat.mod_eq_of_lt hSmall, Nat.mod_eq_of_lt (by omega), min_eq_left (by omega)]
      simp only [List.singleton_append, decodeContinuation, hByte, hSum, if_pos hSmall]
    · have hByte : (ofNat (n % 128 ||| 0x80)).toNat = n % 128 + 128 := by
        rw [Nat.or_comm, ← Nat.two_pow_add_eq_or_of_lt (i := 7) (Nat.mod_lt _ (by decide)) 1,
          UInt8.toNat_ofNat']
        omega
      have hSplit : n * 2 ^ shift = n % 128 * 2 ^ shift + n / 128 * 2 ^ (shift + 7) := by
        calc n * 2 ^ shift = (n % 128 + 128 * (n / 128)) * 2 ^ shift := by rw [Nat.mod_add_div]
          _ = n % 128 * 2 ^ shift + n / 128 * 2 ^ (shift + 7) := by ring
      have hShift : shift < 32 := by
        apply (Nat.pow_lt_pow_iff_right (Nat.lt_succ_self 1)).mp
        calc 2 ^ shift ≤ n * 2 ^ shift := Nat.le_mul_of_pos_left _ (by omega)
          _ < 2 ^ 32 := by omega
      have hSum : min (value + (n % 128 + 128) % 128 * 2 ^ shift % 2 ^ 64) 0xFFFFFFFF =
          value + n % 128 * 2 ^ shift := by
        rw [Nat.add_mod_right, Nat.mod_mod, Nat.mod_eq_of_lt (by omega), min_eq_left (by omega)]
      simp only [List.cons_append, decodeContinuation, hByte, hSum]
      rw [if_neg (by omega), if_neg (by omega),
        ih (n / 128) (by omega) _ _ (by omega), hSplit, Nat.add_assoc]

def FreeBits (prefixByte : UInt8) (prefixBits : Nat) : Prop :=
  ∀ n < 2 ^ prefixBits, (prefixByte ||| UInt8.ofNat n).toNat % 2 ^ prefixBits = n

theorem freeBits_string : FreeBits 0x00 7 := by
  unfold FreeBits
  decide

theorem freeBits_indexed : FreeBits 0x80 7 := by
  unfold FreeBits
  decide

theorem freeBits_literal : FreeBits 0x00 4 := by
  unfold FreeBits
  decide

theorem decodeInteger_encode {prefixBits : Nat} {prefixByte : UInt8} (hFree : FreeBits prefixByte prefixBits)
    (value : Nat) (hValue : value < 2 ^ 32) (rest : Bytes) :
    decodeInteger prefixBits (encodeInteger value prefixBits prefixByte ++ rest) = (value, rest) := by
  have hPos : 0 < 2 ^ prefixBits := Nat.two_pow_pos prefixBits
  unfold encodeInteger
  simp only
  split_ifs with hSmall
  · simp only [List.singleton_append, decodeInteger, hFree value (by omega), if_pos hSmall]
  · simp only [List.cons_append, decodeInteger, hFree (2 ^ prefixBits - 1) (by omega)]
    rw [if_neg (by omega), decodeContinuation_encode _ _ _ _ (by omega)]
    congr 1
    omega

theorem decodeString_encode (str rest : Bytes) (hLength : str.length < 2 ^ 32) :
    decodeString (encodeString str ++ rest) = (str, rest) := by
  unfold decodeString encodeString
  rw [Nat.mod_eq_of_lt hLength, List.append_assoc, decodeInteger_encode freeBits_string _ hLength]
  simp

structure Matches (name value : Bytes) (found : Nat × Nat) : Prop where
  full : 0 < found.1 → found.1 < 62 ∧ tableEntry found.1 = (name, value)
  named : 0 < found.2 → found.2 < 62 ∧ (tableEntry found.2).1 = name

theorem matchIndices_matches (name value : Bytes) (left : List (Bytes × Bytes)) (i nameMatch : Nat)
    (hLeft : staticTable.drop i = left) (hFound : Matches name value (0, nameMatch)) :
    Matches name value (matchIndices name value left i nameMatch) := by
  induction left generalizing i nameMatch with
  | nil => exact hFound
  | cons entry rest ih =>
    have hLength : staticTable.length = 62 := rfl
    have hInside : i < 62 := by
      have hDrop := congrArg List.length hLeft
      simp only [List.length_drop, List.length_cons, hLength] at hDrop
      omega
    have hEntry : tableEntry i = entry := by
      unfold tableEntry
      have hGet := List.drop_eq_getElem_cons (l := staticTable) (hLength ▸ hInside)
      rw [hLeft, List.cons.injEq] at hGet
      rw [List.getD_eq_getElem?_getD, List.getElem?_eq_getElem (hLength ▸ hInside), Option.getD_some, hGet.1]
    have hRest : staticTable.drop (i + 1) = rest := by
      rw [← List.drop_drop, hLeft]
      rfl
    obtain ⟨tname, tvalue⟩ := entry
    unfold matchIndices
    split_ifs with hName hNone hValue hValue
    · exact ⟨fun _ => ⟨hInside, by rw [hEntry, hName, hValue]⟩,
        fun _ => ⟨hInside, by rw [hEntry]; exact hName⟩⟩
    · exact ih (i + 1) i hRest
        ⟨fun h => absurd h (lt_irrefl 0), fun _ => ⟨hInside, by rw [hEntry]; exact hName⟩⟩
    · exact ⟨fun _ => ⟨hInside, by rw [hEntry, hName, hValue]⟩, hFound.named⟩
    all_goals exact ih (i + 1) nameMatch hRest hFound

theorem indexed_byte : ∀ i < 62, encodeInteger i 7 0x80 = [0x80 ||| ofNat i] ∧ (0x80 ||| ofNat i) &&& 0x80 ≠ 0 := by
  decide

theorem literal_first (hIndex : n < 62) : ∃ first more, encodeInteger n 4 0x00 = first :: more ∧
    first &&& 0x80 = 0 ∧ first &&& 0xC0 ≠ 0x40 ∧ first &&& 0xF0 = 0x00 := by
  have hSmall : ∀ k < 16, (0x00 ||| ofNat k) &&& 0x80 = 0 ∧
      (0x00 ||| ofNat k) &&& 0xC0 ≠ 0x40 ∧ (0x00 ||| ofNat k) &&& 0xF0 = 0x00 := by decide
  unfold encodeInteger
  simp only
  split_ifs with h
  · exact ⟨_, _, rfl, hSmall n (by omega)⟩
  · exact ⟨_, _, rfl, hSmall 15 (by decide)⟩

theorem decodeField_literal (hIndex : n < 62) (tail : Bytes) : decodeField (encodeInteger n 4 0x00 ++ tail) =
      (some (decodeLiteral 4 (encodeInteger n 4 0x00 ++ tail)).1,
        (decodeLiteral 4 (encodeInteger n 4 0x00 ++ tail)).2) := by
  obtain ⟨first, more, hEq, hTop, hIncremental, hLiteral⟩ := literal_first n hIndex
  rw [hEq, List.cons_append]
  unfold decodeField
  simp only [hTop, ne_eq, not_true_eq_false, if_false, if_neg hIncremental, if_pos hLiteral]

theorem decodeField_encode (hName : field.1.length < 2 ^ 32) (hValue : field.2.length < 2 ^ 32) (rest : Bytes) :
    decodeField (encodeField field ++ rest) = (some field, rest) := by
  obtain ⟨hFull, hNamed⟩ := matchIndices_matches field.1 field.2 (staticTable.drop 1) 1 0 rfl
    ⟨fun h => absurd h (lt_irrefl 0), fun h => absurd h (lt_irrefl 0)⟩
  unfold encodeField
  generalize matchIndices field.1 field.2 (staticTable.drop 1) 1 0 = found at hFull hNamed
  obtain ⟨full, nameMatch⟩ := found
  simp only at hFull hNamed ⊢
  split_ifs with hIsFull hIsNamed
  · obtain ⟨hInside, hEntry⟩ := hFull hIsFull
    obtain ⟨hByte, hTop⟩ := indexed_byte full hInside
    have hIndex := decodeInteger_encode freeBits_indexed full (by omega) rest
    rw [hByte, List.singleton_append] at hIndex ⊢
    simp only [decodeField, if_pos hTop, hIndex, hIsFull, hInside, and_self, if_true, hEntry]
  · obtain ⟨hInside, hEntry⟩ := hNamed hIsNamed
    rw [List.append_assoc, decodeField_literal nameMatch hInside]
    simp only [decodeLiteral, decodeInteger_encode freeBits_literal nameMatch (by omega), hIsNamed,
      hInside, and_self, if_true, hEntry, decodeString_encode _ _ hValue]
  · have hZero : (0x00 : UInt8) :: (encodeString field.1 ++ encodeString field.2) =
        encodeInteger 0 4 0x00 ++ (encodeString field.1 ++ encodeString field.2) := rfl
    rw [hZero, List.append_assoc, decodeField_literal 0 (by decide)]
    simp only [decodeLiteral, decodeInteger_encode freeBits_literal 0 (by decide), lt_irrefl,
      false_and, if_false, List.append_assoc, decodeString_encode _ _ hName, decodeString_encode _ _ hValue]

theorem encodeField_ne_nil : encodeField field ≠ [] := by
  have hInteger : ∀ value bits byte, encodeInteger value bits byte ≠ [] := by
    intro value bits byte
    unfold encodeInteger
    simp only
    split_ifs <;> simp
  unfold encodeField
  simp only
  split_ifs <;> simp [hInteger]

theorem decodeFields_encode (fields : List (Bytes × Bytes))
    (hLength : ∀ field ∈ fields, field.1.length < 2 ^ 32 ∧ field.2.length < 2 ^ 32)
    (rounds : Nat) (headers : HeaderMap) (hRounds : (fields.flatMap encodeField).length ≤ rounds) :
    decodeFields rounds (fields.flatMap encodeField) headers =
      fields.foldl (fun m field => m.set field.1 field.2) headers := by
  induction fields generalizing rounds headers with
  | nil => cases rounds <;> rfl
  | cons field fields ih =>
    obtain ⟨hName, hValue⟩ := hLength field List.mem_cons_self
    have hRead := decodeField_encode field hName hValue (fields.flatMap encodeField)
    cases hBytes : encodeField field with
    | nil => exact absurd hBytes (encodeField_ne_nil field)
    | cons first more =>
      rw [List.flatMap_cons, hBytes, List.cons_append] at hRounds ⊢
      rw [hBytes, List.cons_append] at hRead
      rw [List.length_cons, List.length_append] at hRounds
      cases rounds with
      | zero => omega
      | succ rounds =>
        rw [decodeFields, hRead]
        exact ih (fun f hf => hLength f (List.mem_cons_of_mem _ hf)) rounds _ (by omega)

theorem find_foldl_set (fields : List (Bytes × Bytes)) (hNodup : (fields.map Prod.fst).Nodup)
    (m : HeaderMap) (name : Bytes) : (fields.foldl (fun m field => m.set field.1 field.2) m).find name =
      ((HeaderMap.mk fields hNodup).find name).or (m.find name) := by
  induction fields generalizing m with
  | nil => rfl
  | cons field fields ih =>
    have hSplit := List.nodup_cons.mp hNodup
    rw [List.foldl_cons, ih hSplit.2, HeaderMap.find_set]
    unfold HeaderMap.find
    rw [List.find?_cons]
    by_cases hName : field.1 = name
    · have hGone : fields.find? (fun f => f.1 = name) = none := by
        rw [List.find?_eq_none]
        intro f hf hEq
        have hSame : f.1 = field.1 := (of_decide_eq_true hEq).trans hName.symm
        exact hSplit.1 (hSame ▸ List.mem_map_of_mem hf)
      simp [hGone, hName]
    · simp [hName, Ne.symm hName]

theorem find_perm {fields : List (Bytes × Bytes)} (hNodup : (fields.map Prod.fst).Nodup)
    {m : HeaderMap} (hPerm : fields.Perm m.entries) (name : Bytes) :
    (HeaderMap.mk fields hNodup).find name = m.find name := by
  apply Option.ext
  intro value
  rw [HeaderMap.find_eq_some_iff, HeaderMap.find_eq_some_iff]
  exact hPerm.mem_iff

/-- Every name and value has a length that fits 32 bits. -/
def Fits (headers : HeaderMap) : Prop :=
  ∀ field ∈ headers.entries, field.1.length < 2 ^ 32 ∧ field.2.length < 2 ^ 32

instance (headers : HeaderMap) : Decidable (Fits headers) :=
  inferInstanceAs (Decidable (∀ field ∈ headers.entries, _))

/-- Every field is found again under its name. -/
theorem find_decode_encode (order : MapOrder) (headers : HeaderMap) (hFits : Fits headers)
    (name : Bytes) : (decode (encode order headers)).find name = headers.find name := by
  have hPerm := order.perm headers.entries
  have hNodup := (hPerm.map Prod.fst).nodup_iff.mpr headers.nodup
  unfold decode encode
  rw [decodeFields_encode _ (fun field hIn => hFits field (hPerm.mem_iff.mp hIn)) _ _ le_rfl,
    find_foldl_set _ hNodup, find_perm hNodup hPerm]
  exact Option.or_none

theorem decodeContinuation_lt (value shift : Nat) (hValue : value < 2 ^ 32) :
    (decodeContinuation value shift data).1 < 2 ^ 32 := by
  induction data generalizing value shift with
  | nil => exact hValue
  | cons byte rest ih =>
    have hSum : min (value + byte.toNat % 128 * 2 ^ shift % 2 ^ 64) 0xFFFFFFFF < 2 ^ 32 := by omega
    unfold decodeContinuation
    simp only
    split_ifs
    · exact hSum
    · exact hSum
    · exact ih _ _ hSum

theorem decodeString_length_lt : (decodeString data).1.length < 2 ^ 32 := by
  have hLength : (decodeInteger 7 data).1 < 2 ^ 32 := by
    cases data with
    | nil => exact Nat.two_pow_pos 32
    | cons first rest =>
      unfold decodeInteger
      simp only
      split_ifs
      · omega
      · exact decodeContinuation_lt rest _ _ (by omega)
  unfold decodeString
  simp only [List.length_take]
  omega

theorem tableEntry_fits (index : Nat) :
    (tableEntry index).1.length < 2 ^ 32 ∧ (tableEntry index).2.length < 2 ^ 32 := by
  have hTable : ∀ entry ∈ staticTable, entry.1.length < 2 ^ 32 ∧ entry.2.length < 2 ^ 32 := by decide
  unfold tableEntry
  rw [List.getD_eq_getElem?_getD]
  cases hEntry : staticTable[index]? with
  | none => decide
  | some entry => exact hTable entry (List.mem_of_getElem? hEntry)

theorem decodeLiteral_fits (prefixBits : Nat) (data : Bytes) : (decodeLiteral prefixBits data).1.1.length < 2 ^ 32 ∧
      (decodeLiteral prefixBits data).1.2.length < 2 ^ 32 := by
  unfold decodeLiteral
  simp only
  split_ifs
  · exact ⟨(tableEntry_fits _).1, decodeString_length_lt _⟩
  · exact ⟨decodeString_length_lt _, decodeString_length_lt _⟩

theorem decodeField_fits (hField : (decodeField data).1 = some field) :
    field.1.length < 2 ^ 32 ∧ field.2.length < 2 ^ 32 := by
  unfold decodeField at hField
  cases data with
  | nil => cases hField
  | cons first rest =>
    simp only at hField
    split_ifs at hField <;> simp only [Option.some.injEq] at hField
    · exact hField ▸ tableEntry_fits _
    all_goals exact hField ▸ decodeLiteral_fits _ _

theorem decodeFields_fits (rounds : Nat) (data : Bytes) (headers : HeaderMap)
    (hHeaders : Fits headers) : Fits (decodeFields rounds data headers) := by
  induction rounds generalizing data headers with
  | zero => exact hHeaders
  | succ rounds ih =>
    cases data with
    | nil => exact hHeaders
    | cons first rest =>
      have hRead := decodeField_fits (first :: rest)
      rw [decodeFields]
      generalize decodeField (first :: rest) = read at hRead
      obtain ⟨_ | field, left⟩ := read
      · exact ih left headers hHeaders
      · apply ih left (headers.set field.1 field.2)
        intro e he
        rcases HeaderMap.mem_set.mp he with rfl | ⟨hIn, -⟩
        · exact hRead field rfl
        · exact hHeaders e hIn

theorem fits_of_find_decode (headers : HeaderMap) (hSame : ∀ name, (decode data).find name = headers.find name) :
    Fits headers := by
  intro field hIn
  have hFound : (decode data).find field.1 = some field.2 := by
    rw [hSame, HeaderMap.find_eq_some_iff]
    exact hIn
  have hEmpty : Fits HeaderMap.empty := nofun
  exact decodeFields_fits _ _ _ hEmpty _ (HeaderMap.find_eq_some_iff.mp hFound)

/-- Whatever the order in which the map is enumerated, the decoder gives the map back. -/
theorem decode_encode (order : MapOrder) (headers : HeaderMap)
    (hFits : ∀ field ∈ headers.entries, field.1.length < 2 ^ 32 ∧ field.2.length < 2 ^ 32) :
    (decode (encode order headers)).entries.Perm headers.entries := by
  apply (List.perm_ext_iff_of_nodup _ _).mpr
  · rintro ⟨name, value⟩
    rw [← HeaderMap.find_eq_some_iff, ← HeaderMap.find_eq_some_iff, find_decode_encode order headers hFits]
  · exact (decode (encode order headers)).nodup.of_map
  · exact headers.nodup.of_map

/-- One field of each kind, listed in reverse. -/
theorem decode_encode_mixed : (decode (encode ⟨List.reverse, List.reverse_perm⟩
      ⟨[(ascii ":method", ascii "GET"), (ascii ":path", ascii "/a"), (ascii "x", ascii "y")], by decide⟩)).entries.Perm
      [(ascii ":method", ascii "GET"), (ascii ":path", ascii "/a"), (ascii "x", ascii "y")] :=
  decode_encode ⟨List.reverse, List.reverse_perm⟩
    ⟨[(ascii ":method", ascii "GET"), (ascii ":path", ascii "/a"), (ascii "x", ascii "y")],
      by decide⟩ (by decide)

end QbuemStack.Http2.Hpack
