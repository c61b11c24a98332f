import QbuemStack.Server.BuiltResponse

/-! What a client makes of a response that was sent when the handler had returned. -/
namespace QbuemStack.Server

open Octets Numerals Http
open List (mem_append mem_map mem_map_of_mem mem_singleton)

structure Intended where
  status : Int
  fields : List (Bytes × Bytes)
  body : Bytes
  trailers : List (Bytes × Bytes)

/-- The bytes are exactly one response that carries everything that was set. -/
def Obtains (wire : Bytes) (m : Intended) : Prop :=
  ∃ got, readResponse wire = some got ∧ got.rest = [] ∧ (got.status : Int) = m.status ∧
    (∀ f ∈ m.fields, trimmed f ∈ got.fields) ∧ got.body = m.body ∧
    got.trailers = m.trailers.map trimmed

def bodiless (code : Int) : Bool := code = 204 ∨ code = 304

def readContent (r : Response) (content : Bytes) : Option (Bytes × List (Bytes × Bytes) × Bytes) :=
  if bodiless r.statusCode then some ([], [], content)
  else if r.chunked then readChunks (content.length + 1) content
  else if content.length < r.contentLength then none
  else some (content.take r.contentLength, [], content.drop r.contentLength)

section Reading

variable (order : MapOrder) (r : Response) (content : Bytes)

theorem mem_wireFields (f : Bytes × Bytes) :
    f ∈ r.wireFields order ↔ f ∈ r.headers.entries ∨ (∃ c ∈ r.cookies, (ascii "Set-Cookie", c) = f) ∨
      f = r.framingField := by
  simp only [Response.wireFields, mem_append, mem_map, mem_singleton, or_assoc, (order.perm r.headers.entries).mem_iff]

theorem framingField_writable : Writable r.framingField := by
  have hCl : colon ∉ ascii "Content-Length" ∧ lf ∉ ascii "Content-Length" := by decide
  unfold Response.framingField
  split_ifs
  · exact ⟨by decide, by decide, by decide⟩
  · exact ⟨hCl.1, hCl.2, fun hc => (render_ten hc).2.2 rfl⟩

variable (hHeaders : ∀ e ∈ r.headers.entries, PlainField e) (hCookies : ∀ c ∈ r.cookies, lf ∉ c)

include hHeaders in
theorem named_wireFields (name : Bytes) (hName : name = ascii "Transfer-Encoding" ∨ name = ascii "Content-Length") :
    named name ((r.wireFields order).map trimmed) =
      if sameName name r.framingField.1 then [trimmed r.framingField] else [] := by
  have hSet : ∀ e ∈ order.visit r.headers.entries, sameName name e.1 = false := by
    intro e he
    have hPlain := (hHeaders e ((order.perm _).mem_iff.mp he)).1
    rcases hName with rfl | rfl
    · exact hPlain.not_te
    · exact hPlain.not_cl
  have hCookie : sameName name (ascii "Set-Cookie") = false := by
    rcases hName with rfl | rfl <;> decide
  have hSetFields : ((order.visit r.headers.entries ++ r.cookies.map fun c => (ascii "Set-Cookie", c)).map
      trimmed).filter (fun f => sameName name f.1) = [] := by
    rw [List.filter_eq_nil_iff, List.forall_mem_map]
    intro e he
    rcases mem_append.mp he with he | he
    · simp [trimmed, hSet e he]
    · obtain ⟨c, -, rfl⟩ := mem_map.mp he
      simp [trimmed, hCookie]
  rw [named, Response.wireFields, List.map_append, List.filter_append, hSetFields, List.nil_append]
  by_cases h : sameName name r.framingField.1 <;> simp [trimmed, h]

theorem elements_decimal (n : Nat) : elements (trimOws (render 10 n)) = [render 10 n] := by
  have hDigit : ∀ d < 10, isOws (digitByte d) = false ∧ digitByte d ≠ 44 := by decide
  have hPlain : ∀ c ∈ render 10 n, isOws c = false ∧ c ≠ 44 := by
    intro c hc
    obtain ⟨d, hd, rfl⟩ := render_digit (by decide) hc
    exact hDigit d hd
  have hTrim : trimOws (render 10 n) = render 10 n := trimOws_of_none fun c hc => (hPlain c hc).1
  have hComma : (44 : UInt8) ∉ render 10 n := fun hc => (hPlain 44 hc).2 rfl
  simp [elements, hTrim, splitOn_of_notMem 44 _ hComma, render_ne_nil]

include hHeaders in
theorem readBody_wireFields : readBody ((r.wireFields order).map trimmed) content =
      if r.chunked then readChunks (content.length + 1) content else if content.length < r.contentLength then none
      else some (content.take r.contentLength, [], content.drop r.contentLength) := by
  have hTe := named_wireFields order r hHeaders (ascii "Transfer-Encoding") (.inl rfl)
  have hCl := named_wireFields order r hHeaders (ascii "Content-Length") (.inr rfl)
  cases hChunked : r.chunked with
  | true =>
    have hField : r.framingField = (ascii "Transfer-Encoding", ascii "chunked") := by
      simp [Response.framingField, hChunked]
    rw [hField, if_pos (by decide)] at hTe
    have hEnds : endsChunked ([trimmed (ascii "Transfer-Encoding", ascii "chunked")].flatMap
        fun f => elements f.2) = true := by decide
    simp only [readBody, members, hTe, hEnds]
    simp
  | false =>
    have hField : r.framingField = (ascii "Content-Length", render 10 r.contentLength) := by
      simp [Response.framingField, hChunked]
    have hOther : sameName (ascii "Transfer-Encoding") (ascii "Content-Length") = false := by decide
    have hSame : sameName (ascii "Content-Length") (ascii "Content-Length") = true := by decide
    rw [hField] at hTe hCl
    simp only [hOther, hSame, if_true] at hTe hCl
    have hMembers : members (ascii "Content-Length") ((r.wireFields order).map trimmed) =
        [render 10 r.contentLength] := by
      simp [members, hCl, trimmed, elements_decimal]
    have hDecimal : isDecimal (render 10 r.contentLength) = true := by
      have hAll : (render 10 r.contentLength).all isDigit = true :=
        List.all_eq_true.mpr fun c hc => (render_ten hc).1
      simp only [isDecimal, hAll, ne_eq, render_ne_nil, not_false_eq_true, and_self, decide_true]
    have hAgreed : agreedLength [render 10 r.contentLength] = some r.contentLength := by
      simp [agreedLength, hDecimal, decimalValue_render]
    simp only [readBody, hTe, hMembers, hAgreed]
    simp

include hHeaders hCookies in
theorem wireFields_writable : ∀ field ∈ r.wireFields order, Writable field := by
  have hCookie : colon ∉ ascii "Set-Cookie" ∧ lf ∉ ascii "Set-Cookie" := by decide
  intro field hField
  rcases (mem_wireFields order r field).mp hField with hIn | ⟨c, hc, rfl⟩ | rfl
  · exact (hHeaders field hIn).writable
  · exact ⟨hCookie.1, hCookie.2, hCookies c hc⟩
  · exact framingField_writable r

include hHeaders hCookies in
/-- What a client obtains, clause by clause: the status, the fields and the content. -/
theorem obtains_iff (m : Intended) : Obtains (r.serializeHeader order ++ content) m ↔
      (200 ≤ r.statusCode ∧ r.statusCode < 1000) ∧ r.statusCode = m.status ∧
      (∀ f ∈ m.fields, trimmed f ∈ (r.wireFields order).map trimmed) ∧
      readContent r content = some (m.body, m.trailers.map trimmed, []) := by
  have hHead := readHead_serialize order r content
    (wireFields_writable order r hHeaders hCookies)
  by_cases hRange : 100 ≤ r.statusCode ∧ r.statusCode < 1000
  · rw [if_pos hRange] at hHead
    simp only [Obtains, readResponse, hHead]
    by_cases hFinal : r.statusCode.toNat < 200
    · have hLow : ¬200 ≤ r.statusCode := by omega
      simp [hFinal, hLow]
    · have hHigh : 200 ≤ r.statusCode := by omega
      have hCast : ((r.statusCode.toNat : Nat) : Int) = r.statusCode := by omega
      have hNone : (r.statusCode.toNat = 204 ∨ r.statusCode.toNat = 304) ↔
          bodiless r.statusCode = true := by
        simp only [bodiless, decide_eq_true_eq]
        omega
      simp only [if_neg hFinal, hNone, readBody_wireFields order r content hHeaders]
      unfold readContent
      cases hBodiless : bodiless r.statusCode with
      | true =>
        simp [hHigh, hRange.2, hCast]
        tauto
      | false =>
        simp only [Bool.false_eq_true, if_false, Option.map_eq_some_iff]
        constructor
        · rintro ⟨got, ⟨⟨body, trailers, rest⟩, hRead, rfl⟩, hRest, hStatus, hFields, hBody, hTrailers⟩
          simp only at hRest hStatus hFields hBody hTrailers
          subst hRest hBody hTrailers
          exact ⟨⟨hHigh, hRange.2⟩, by omega, hFields, hRead⟩
        · rintro ⟨-, hStatus, hFields, hRead⟩
          exact ⟨_, ⟨_, hRead, rfl⟩, rfl, by simp only; omega, hFields, rfl, rfl⟩
  · rw [if_neg hRange] at hHead
    simp only [Obtains, readResponse, hHead]
    constructor
    · rintro ⟨got, hGot, -⟩
      cases hGot
    · rintro ⟨hStatus, -⟩
      omega

end Reading

def payload (fs : FileSystem) (r : Response) : Bytes :=
  (if r.hasSendfile then ((fs r.sendfilePath).getD []).take r.sendfileSize
    else if r.chunked then r.chunkBuf else r.body) ++
  (if r.chunked ∧ r.trailers ≠ [] then r.encodeTrailers else [])

def answered (env : SendEnv) (rq : Request) (r : Response) : Response :=
  if notModified rq r then notModifiedResponse env r else stamp env (applyRange rq r)

theorem sendResponse_bytes (fs : FileSystem) (env : SendEnv) (rq : Request) (r : Response)
    (hStreamed : r.streamed = false) : (sendResponse env rq r).flatMap (WriteCall.bytes fs) =
      (answered env rq r).serializeHeader env.order ++ payload fs (answered env rq r) := by
  unfold sendResponse answered
  rw [if_neg (by simp [hStreamed])]
  split_ifs with hNotModified
  · simp [WriteCall.bytes, Response.serialize, payload, notModifiedResponse, Response.header,
      Response.status, Response.hasSendfile]
  · generalize stamp env (applyRange rq r) = sent
    unfold writesOf payload
    cases sent.hasSendfile <;> by_cases hTrailers : sent.chunked = true ∧ sent.trailers ≠ [] <;>
      simp [WriteCall.bytes, hTrailers]

inductive RangeOutcome (rq : Request) (r : Response) : Response → Prop where
  | untouched (h : rq.header (ascii "Range") ≠ [] ∨ r.statusCode ≠ 200) : RangeOutcome rq r r
  | plain (h : rq.header (ascii "Range") = [] ∧ r.statusCode = 200) :
      RangeOutcome rq r (r.header (ascii "Accept-Ranges") (ascii "bytes"))
  | refused (h : r.statusCode = 200) (total : Nat) : RangeOutcome rq r (rangeNotSatisfiable r total)
  | part (h : r.statusCode = 200) (first last total : Nat) :
      RangeOutcome rq r (partialContent r first last total)

variable (env : SendEnv) (rq : Request)

theorem applyRange_outcome (r : Response) : RangeOutcome rq r (applyRange rq r) := by
  unfold applyRange
  simp only
  split_ifs with hRange hBytes hPlain
  · split
    · exact .untouched (.inl hRange.1)
    · split
      · split_ifs
        · exact .refused hRange.2 _
        all_goals exact .part hRange.2 _ _ _
      · exact .refused hRange.2 _
  · exact .untouched (.inl hRange.1)
  · exact .plain hPlain
  · exact .untouched (by tauto)

theorem applyRange_shape (r : Response) :
    ∃ code hs b, applyRange rq r = { r with statusCode := code, headers := hs, body := b } := by
  have hOutcome := applyRange_outcome rq r
  generalize applyRange rq r = ranged at hOutcome
  cases hOutcome <;> exact ⟨_, _, _, rfl⟩

theorem stamp_shape (r : Response) : ∃ hs, stamp env r = { r with headers := hs } := by
  unfold stamp
  split_ifs <;> exact ⟨_, rfl⟩

variable {fs : FileSystem} {r : Response}

theorem sendResponse_servable (h : Sound fs r) (env : SendEnv) (rq : Request) :
    ∀ call ∈ sendResponse env rq r, call.Servable fs := by
  obtain ⟨code, hs, b, hRange⟩ := applyRange_shape rq r
  obtain ⟨hs', hStamp⟩ := stamp_shape env (applyRange rq r)
  intro call hCall
  unfold sendResponse at hCall
  split_ifs at hCall with hStreamed hNotModified
  · cases hCall
  · rw [mem_singleton.mp hCall]
    trivial
  · rw [hStamp, hRange] at hCall
    rcases mem_append.mp hCall with hContent | hTrailers
    · simp only [Response.hasSendfile] at hContent
      split_ifs at hContent with hFile
      · rcases List.mem_cons.mp hContent with rfl | hContent
        · trivial
        · rw [mem_singleton.mp hContent]
          exact h.file (by simpa using hFile)
      all_goals
        rw [mem_singleton.mp hContent]
        trivial
    · split_ifs at hTrailers
      · rw [mem_singleton.mp hTrailers]
        trivial
      · cases hTrailers

def setAll (m : HeaderMap) (fields : List (Bytes × Bytes)) : HeaderMap :=
  fields.foldl (fun m f => m.set f.1 f.2) m

theorem mem_setAll {m : HeaderMap} {fields : List (Bytes × Bytes)}
    (hKeys : (fields.map Prod.fst).Nodup) {e : Bytes × Bytes} :
    e ∈ (setAll m fields).entries ↔ e ∈ fields ∨ e ∈ m.entries ∧ ∀ f ∈ fields, f.1 ≠ e.1 := by
  induction fields generalizing m with
  | nil => simp [setAll]
  | cons f fields ih =>
    rw [List.map_cons, List.nodup_cons] at hKeys
    have hRest := ih (m := m.set f.1 f.2) hKeys.2
    have hFold : setAll m (f :: fields) = setAll (m.set f.1 f.2) fields := rfl
    rw [hFold, hRest, HeaderMap.mem_set]
    constructor
    · rintro (hIn | ⟨rfl | ⟨hOld, hNe⟩, hOther⟩)
      · exact .inl (List.mem_cons_of_mem _ hIn)
      · exact .inl List.mem_cons_self
      · refine .inr ⟨hOld, ?_⟩
        exact List.forall_mem_cons.mpr ⟨hNe.symm, hOther⟩
    · rintro (hIn | ⟨hOld, hOther⟩)
      · rcases List.mem_cons.mp hIn with rfl | hIn
        · refine .inr ⟨.inl rfl, ?_⟩
          intro g hg hEq
          exact hKeys.1 (hEq ▸ mem_map_of_mem hg)
        · exact .inl hIn
      · exact .inr ⟨.inr ⟨hOld, (hOther f List.mem_cons_self).symm⟩,
          fun g hg => hOther g (List.mem_cons_of_mem _ hg)⟩

def serverFields (env : SendEnv) (rq : Request) (r : Response) : List (Bytes × Bytes) :=
  (if rq.header (ascii "Range") = [] ∧ r.statusCode = 200 then
    [(ascii "Accept-Ranges", ascii "bytes")] else []) ++
  [(ascii "Date", env.date), (ascii "Connection", env.connection)] ++
  (if env.keepAlive then [(ascii "Keep-Alive",
    ascii "timeout=30, max=" ++ toStringInt ((MAX_REQUESTS : Int) - env.handled))] else [])

theorem serverFields_names (r : Response) :
    ((serverFields env rq r).map Prod.fst).Nodup ∧ ∀ f ∈ serverFields env rq r, f.1 ≠ ascii "Set-Cookie" := by
  unfold serverFields
  split_ifs <;> simp <;> decide

/-- Unless the range changes the status, the response differs from the one the handler left by the
server's fields alone. -/
theorem answered_eq (r : Response) (hNotModified : notModified rq r = false)
    (hStatus : (applyRange rq r).statusCode = r.statusCode) :
    answered env rq r = { r with headers := setAll r.headers (serverFields env rq r) } := by
  rw [answered, if_neg (by simp [hNotModified])]
  have hOutcome := applyRange_outcome rq r
  generalize applyRange rq r = ranged at hStatus hOutcome
  cases hOutcome with
  | untouched h =>
    have hNot : ¬(rq.header (ascii "Range") = [] ∧ r.statusCode = 200) := by tauto
    simp only [serverFields, if_neg hNot]
    unfold stamp
    split_ifs <;> rfl
  | plain h =>
    simp only [serverFields, if_pos h]
    unfold stamp
    split_ifs <;> rfl
  | refused h total =>
    have hCode : (416 : Int) = r.statusCode := hStatus
    omega
  | part h first last total =>
    have hCode : (206 : Int) = r.statusCode := hStatus
    omega

def notModifiedFields (env : SendEnv) (r : Response) : List (Bytes × Bytes) :=
  [(ascii "ETag", r.getHeader (ascii "ETag")), (ascii "Date", env.date),
    (ascii "Connection", env.connection)]

theorem notModifiedResponse_eq (r : Response) : notModifiedResponse env r =
      { statusCode := 304, headers := setAll .empty (notModifiedFields env r) } := rfl

theorem lf_connection : lf ∉ env.connection := by
  unfold SendEnv.connection
  split_ifs <;> decide

theorem Sound.getHeader (h : Sound fs r) (key : Bytes) : lf ∉ r.getHeader key := by
  unfold Response.getHeader HeaderMap.find
  cases hFind : r.headers.entries.find? fun e => e.1 = key with
  | none => simp
  | some e => exact (h.headers e (List.mem_of_find?_eq_some hFind)).2

theorem Sound.ranged {ranged : Response} {rq : Request} (h : Sound fs r) (hOutcome : RangeOutcome rq r ranged) :
    Sound fs ranged := by
  have hName : PlainName (ascii "Content-Range") ∧ PlainName (ascii "Accept-Ranges") := by
    decide +kernel
  have hDigits : ∀ n, lf ∉ render 10 n := fun n hc => (render_ten hc).2.2 rfl
  have hTexts : lf ∉ ascii "bytes */" ∧ lf ∉ ascii "bytes " ∧ lf ∉ ascii "-" ∧ lf ∉ ascii "/" ∧
      lf ∉ ascii "bytes" := by decide
  have hStatus : ∀ code, Sound fs (r.status code) := fun _ => h.keep
  have hBody : ∀ {r' : Response} {b : Bytes}, Sound fs r' → Sound fs (r'.setBody b) := fun h' => h'.keep
  cases hOutcome with
  | untouched _ => exact h
  | plain _ => exact h.header ⟨hName.2, hTexts.2.2.2.2⟩
  | refused _ total =>
    apply hBody
    apply (hStatus 416).header ⟨hName.1, ?_⟩
    simp [hTexts, hDigits]
  | part _ first last total =>
    apply hBody
    apply Sound.header _ ⟨hName.2, hTexts.2.2.2.2⟩
    apply (hStatus 206).header ⟨hName.1, ?_⟩
    simp [hTexts, hDigits]

theorem Sound.stamp (h : Sound fs r) (env : SendEnv) : Sound fs (stamp env r) := by
  have hName : PlainName (ascii "Date") ∧ PlainName (ascii "Connection") ∧
      PlainName (ascii "Keep-Alive") := by
    decide +kernel
  have hTimeout : lf ∉ ascii "timeout=30, max=" := by decide
  have hBase := (h.header ⟨hName.1, env.date_line.2⟩).header ⟨hName.2.1, lf_connection env⟩
  unfold Server.stamp
  split_ifs
  · apply hBase.header ⟨hName.2.2, ?_⟩
    simp [hTimeout, lf_toStringInt]
  · exact hBase

theorem Sound.answered (h : Sound fs r) (env : SendEnv) (rq : Request) : Sound fs (answered env rq r) := by
  unfold Server.answered
  split_ifs
  · have hName : PlainName (ascii "ETag") ∧ PlainName (ascii "Date") ∧
        PlainName (ascii "Connection") := by
      decide +kernel
    have hEmpty : Sound fs (({} : Response).status 304) := (sound_empty fs).keep
    exact ((hEmpty.header ⟨hName.1, h.getHeader _⟩).header ⟨hName.2.1, env.date_line.2⟩).header
      ⟨hName.2.2, lf_connection env⟩
  · exact (h.ranged (applyRange_outcome rq r)).stamp env

def setFields (r : Response) : List (Bytes × Bytes) :=
  r.headers.entries ++ r.cookies.map fun c => (ascii "Set-Cookie", c)

/-- No header of the application is replaced by another value of the server. -/
def Kept (env : SendEnv) (rq : Request) (r : Response) : Prop :=
  ∀ e ∈ r.headers.entries, ∀ f ∈ serverFields env rq r, f.1 = e.1 → trimOws f.2 = trimOws e.2

def Reflected (env : SendEnv) (r : Response) : Prop :=
  r.cookies = [] ∧ ∀ e ∈ r.headers.entries, trimmed e ∈ (notModifiedFields env r).map trimmed

theorem framingField_name (r : Response) :
    r.framingField.1 = ascii "Transfer-Encoding" ∨ r.framingField.1 = ascii "Content-Length" := by
  unfold Response.framingField
  split_ifs
  · exact .inl rfl
  · exact .inr rfl

theorem PlainName.ne_framing {name : Bytes} (h : PlainName name) (r : Response) : r.framingField.1 ≠ name := by
  rintro rfl
  rcases framingField_name r with hName | hName
  · exact absurd h.not_te (by rw [hName]; decide)
  · exact absurd h.not_cl (by rw [hName]; decide)

theorem trimmed_name {f g : Bytes × Bytes} (h : trimmed f = trimmed g) : f.1 = g.1 :=
  (Prod.ext_iff.mp h).1

theorem kept_iff (h : Sound fs r) (env : SendEnv) (rq : Request) (hNotModified : notModified rq r = false)
    (hStatus : (applyRange rq r).statusCode = r.statusCode) :
    (∀ f ∈ setFields r, trimmed f ∈ ((answered env rq r).wireFields env.order).map trimmed) ↔ Kept env rq r := by
  obtain ⟨hKeys, hNoCookie⟩ := serverFields_names env rq r
  rw [answered_eq env rq r hNotModified hStatus]
  constructor
  · intro hAll e he f hf hName
    obtain ⟨g, hg, hEq⟩ := mem_map.mp (hAll e (List.mem_append_left _ he))
    have hSame := trimmed_name hEq
    rcases (mem_wireFields _ _ _).mp hg with hHeader | ⟨c, -, rfl⟩ | hFraming
    · rcases (mem_setAll hKeys).mp hHeader with hServer | ⟨-, hOther⟩
      · obtain rfl : g = f := List.inj_on_of_nodup_map hKeys hServer hf (hSame.trans hName.symm)
        exact congrArg Prod.snd hEq
      · exact absurd (hName.trans hSame.symm) (hOther f hf)
    · exact absurd (hName.trans hSame.symm) (hNoCookie f hf)
    · rw [hFraming] at hSame
      exact absurd hSame ((h.headers e he).1.ne_framing _)
  · intro hKept f hf
    rcases mem_append.mp hf with he | hCookie
    · by_cases hServer : ∃ s ∈ serverFields env rq r, s.1 = f.1
      · obtain ⟨s, hs, hName⟩ := hServer
        have hValue := hKept f he s hs hName
        refine mem_map.mpr ⟨s, (mem_wireFields _ _ _).mpr (.inl ?_), ?_⟩
        · exact (mem_setAll hKeys).mpr (.inl hs)
        · rw [trimmed, trimmed, hName, hValue]
      · refine mem_map_of_mem ((mem_wireFields _ _ _).mpr (.inl ?_))
        exact (mem_setAll hKeys).mpr (.inr ⟨he, fun s hs hName => hServer ⟨s, hs, hName⟩⟩)
    · obtain ⟨c, hc, rfl⟩ := mem_map.mp hCookie
      exact mem_map_of_mem ((mem_wireFields _ _ _).mpr (.inr (.inl ⟨c, hc, rfl⟩)))

theorem reflected_iff (h : Sound fs r) (env : SendEnv) (rq : Request) (hNotModified : notModified rq r = true) :
    (∀ f ∈ setFields r, trimmed f ∈ ((answered env rq r).wireFields env.order).map trimmed) ↔ Reflected env r := by
  have hNames : (notModifiedFields env r).map Prod.fst =
      [ascii "ETag", ascii "Date", ascii "Connection"] := rfl
  have hKeys : ((notModifiedFields env r).map Prod.fst).Nodup := by
    rw [hNames]
    decide
  have hCookieName : ascii "Set-Cookie" ∉ (notModifiedFields env r).map Prod.fst := by
    rw [hNames]
    decide
  have hMem : ∀ g, g ∈ (answered env rq r).wireFields env.order ↔
      g ∈ notModifiedFields env r ∨ g = (notModifiedResponse env r).framingField := by
    intro g
    rw [answered, if_pos hNotModified, mem_wireFields, notModifiedResponse_eq, mem_setAll hKeys]
    simp [HeaderMap.empty]
  constructor
  · intro hAll
    constructor
    · rw [List.eq_nil_iff_forall_not_mem]
      intro c hc
      obtain ⟨g, hg, hEq⟩ := mem_map.mp (hAll (ascii "Set-Cookie", c)
        (List.mem_append_right _ (mem_map_of_mem hc)))
      have hSame : g.1 = ascii "Set-Cookie" := trimmed_name hEq
      rcases (hMem g).mp hg with hIn | rfl
      · exact hCookieName (hSame ▸ mem_map_of_mem hIn)
      · rcases framingField_name (notModifiedResponse env r) with hName | hName <;>
          exact absurd (hName.symm.trans hSame) (by decide)
    · intro e he
      obtain ⟨g, hg, hEq⟩ := mem_map.mp (hAll e (List.mem_append_left _ he))
      rcases (hMem g).mp hg with hIn | hFraming
      · exact mem_map.mpr ⟨g, hIn, hEq⟩
      · have hSame := trimmed_name hEq
        rw [hFraming] at hSame
        exact absurd hSame ((h.headers e he).1.ne_framing _)
  · rintro ⟨hNoCookies, hEach⟩ f hf
    rw [setFields, hNoCookies, List.map_nil, List.append_nil] at hf
    obtain ⟨g, hg, hEq⟩ := mem_map.mp (hEach f hf)
    exact mem_map.mpr ⟨g, (hMem g).mpr (.inl hg), hEq⟩

theorem answered_status (r : Response) (hNotModified : notModified rq r = false) :
    (answered env rq r).statusCode = (applyRange rq r).statusCode := by
  obtain ⟨hs, hStamp⟩ := stamp_shape env (applyRange rq r)
  rw [answered, if_neg (by simp [hNotModified]), hStamp]

def Unaltered (env : SendEnv) (rq : Request) (r : Response) : Prop :=
  if notModified rq r then r.statusCode = 304 ∧ Reflected env r
  else (applyRange rq r).statusCode = r.statusCode ∧ Kept env rq r

theorem obtains_answered_iff (h : Sound fs r) (env : SendEnv) (rq : Request) (m : Intended)
    (hStatus : m.status = r.statusCode) (hFields : m.fields = setFields r) :
    Obtains ((answered env rq r).serializeHeader env.order ++ payload fs (answered env rq r)) m ↔
      (200 ≤ r.statusCode ∧ r.statusCode < 1000) ∧ Unaltered env rq r ∧
      if notModified rq r then m.body = [] ∧ m.trailers = []
      else readContent r (payload fs r) = some (m.body, m.trailers.map trimmed, []) := by
  have hSound := h.answered env rq
  rw [obtains_iff env.order _ _ hSound.headers hSound.cookies m, hStatus, hFields]
  unfold Unaltered
  cases hNotModified : notModified rq r with
  | true =>
    have hContent : readContent (answered env rq r) (payload fs (answered env rq r)) =
        some ([], [], []) := by
      rw [answered, if_pos hNotModified]
      rfl
    have hCode : (answered env rq r).statusCode = 304 := by
      rw [answered, if_pos hNotModified]
      rfl
    rw [reflected_iff h env rq hNotModified, hContent, hCode]
    simp only [if_true, Option.some.injEq, Prod.mk.injEq, and_true]
    constructor
    · rintro ⟨-, hCode, hReflected, hBody, hTrailers⟩
      exact ⟨by omega, ⟨hCode.symm, hReflected⟩, hBody.symm,
        List.map_eq_nil_iff.mp hTrailers.symm⟩
    · rintro ⟨-, ⟨hCode, hReflected⟩, hBody, hTrailers⟩
      exact ⟨by omega, hCode.symm, hReflected, hBody.symm, by rw [hTrailers, List.map_nil]⟩
  | false =>
    by_cases hSame : (applyRange rq r).statusCode = r.statusCode
    · rw [kept_iff h env rq hNotModified hSame, answered_eq env rq r hNotModified hSame]
      exact ⟨fun ⟨hRange, _, hKept, hRead⟩ => ⟨hRange, ⟨hSame, hKept⟩, hRead⟩,
        fun ⟨hRange, ⟨_, hKept⟩, hRead⟩ => ⟨hRange, rfl, hKept, hRead⟩⟩
    · rw [answered_status env rq r hNotModified]
      constructor
      · rintro ⟨-, hCode, -⟩
        exact absurd hCode hSame
      · rintro ⟨-, ⟨hCode, -⟩, -⟩
        exact absurd hCode hSame

theorem afterHeaders_answered_iff (h : Sound fs r) (env : SendEnv) (rq : Request) :
    afterHeaders ((answered env rq r).serializeHeader env.order ++ payload fs (answered env rq r)) = some [] ↔
      notModified rq r = true ∨ payload fs (applyRange rq r) = [] := by
  have hSound := h.answered env rq
  rw [afterHeaders_serialize env.order _ _
    (wireFields_writable env.order _ hSound.headers hSound.cookies), Option.some.injEq]
  cases hNotModified : notModified rq r with
  | true =>
    rw [answered, if_pos hNotModified]
    exact ⟨fun _ => .inl rfl, fun _ => rfl⟩
  | false =>
    obtain ⟨hs, hStamp⟩ := stamp_shape env (applyRange rq r)
    rw [answered, if_neg (by simp [hNotModified]), hStamp]
    simp only [Bool.false_eq_true, false_or]
    exact Iff.rfl

end QbuemStack.Server
