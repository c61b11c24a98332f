import QbuemStack.Http.Response

/-! Putting a response on the socket: the conditional and range answers, the headers the server
adds, and the loops that retry partial writes. -/
namespace QbuemStack.Server

variable (fs : FileSystem) (attempts : List Attempt)

open Octets Numerals Http

inductive Attempt where
  | wrote (count : { n : Nat // 0 < n })
  | retry
  | failed
  deriving DecidableEq

def writeAll : List Attempt → Bytes → Bytes × List Attempt
  | attempts, [] => ([], attempts)
  | [], _ :: _ => ([], [])
  | .wrote n :: rest, c :: cs =>
    let (sent, left) := writeAll rest ((c :: cs).drop n.val)
    ((c :: cs).take n.val ++ sent, left)
  | .retry :: rest, c :: cs => writeAll rest (c :: cs)
  | .failed :: rest, _ :: _ => ([], rest)

def advance : Nat → List Bytes → List Bytes
  | _, [] => []
  | n, seg :: rest =>
    if n = 0 then seg :: rest
    else if seg.length ≤ n then advance (n - seg.length) rest
    else seg.drop n :: rest

def writev : List Attempt → List Bytes → Bytes × List Attempt
  | [], _ => ([], [])
  | a :: rest, segs =>
    if segs.flatten = [] then ([], a :: rest)
    else
      match a with
      | .wrote n =>
        let taken := min n.val segs.flatten.length
        let (sent, left) := writev rest (advance taken segs)
        (segs.flatten.take taken ++ sent, left)
      | .retry => writev rest segs
      | .failed => ([], rest)

def writevResponse (attempts : List Attempt) (hdr body : Bytes) : Bytes × List Attempt :=
  writev attempts (if body = [] then [hdr] else [hdr, body])

def sendFileLoop (file : Bytes) : List Attempt → Nat → Nat → Bytes × List Attempt
  | attempts, _, 0 => ([], attempts)
  | [], _, _ + 1 => ([], [])
  | .wrote n :: rest, offset, remaining + 1 =>
    let taken := min (min n.val (min (remaining + 1) 0x7fffffff)) (file.length - offset)
    if taken = 0 then ([], rest)
    else
      let (sent, left) := sendFileLoop file rest (offset + taken) (remaining + 1 - taken)
      (slice file offset taken ++ sent, left)
  | .retry :: rest, offset, remaining + 1 => sendFileLoop file rest offset (remaining + 1)
  | .failed :: rest, _, _ + 1 => ([], rest)

inductive WriteCall where
  | all (data : Bytes)
  | vec (hdr body : Bytes)
  | file (path : Bytes) (size : Nat)

def written (out : Bytes) : List WriteCall := if out = [] then [] else [.all out]

abbrev FileSystem := Bytes → Option Bytes

def WriteCall.perform (fs : FileSystem) (attempts : List Attempt) : WriteCall → Bytes × List Attempt
  | .all data => writeAll attempts data
  | .vec hdr body => writevResponse attempts hdr body
  | .file path size =>
    match fs path with
    | some contents => sendFileLoop contents attempts 0 size
    | none => ([], attempts)

def perform (fs : FileSystem) : List Attempt → List WriteCall → Bytes
  | _, [] => []
  | attempts, call :: rest =>
    let (sent, left) := call.perform fs attempts
    sent ++ perform fs left rest

def WriteCall.bytes (fs : FileSystem) : WriteCall → Bytes
  | .all data => data
  | .vec hdr body => hdr ++ body
  | .file path size => ((fs path).getD []).take size

def supply (attempts : List Attempt) : Nat :=
  (attempts.filter fun a => match a with | .wrote _ => true | _ => false).length

@[simp] theorem supply_wrote (n : { n : Nat // 0 < n }) (rest : List Attempt) :
    supply (.wrote n :: rest) = supply rest + 1 := rfl

def Delivers (attempts : List Attempt) (data : Bytes) (out : Bytes × List Attempt) : Prop :=
  out.1 = data ∧ .failed ∉ out.2 ∧ supply attempts ≤ supply out.2 + data.length

theorem writeAll_delivers (data : Bytes) (hFailed : .failed ∉ attempts)
    (hSupply : data.length ≤ supply attempts) : Delivers attempts data (writeAll attempts data) := by
  induction attempts generalizing data with
  | nil =>
    have hNil : data = [] := List.length_eq_zero_iff.mp (Nat.le_zero.mp hSupply)
    rw [hNil]
    exact ⟨rfl, hFailed, Nat.le_add_right _ _⟩
  | cons a rest ih =>
    have hRest : .failed ∉ rest := fun h => hFailed (List.mem_cons_of_mem _ h)
    cases data with
    | nil => exact ⟨rfl, hFailed, Nat.le_add_right _ _⟩
    | cons c cs =>
      cases a with
      | wrote n =>
        have hPositive := n.property
        rw [supply_wrote, List.length_cons] at hSupply
        obtain ⟨hSent, hLeft, hMore⟩ := ih ((c :: cs).drop n.val) hRest (by
          rw [List.length_drop, List.length_cons]
          omega)
        refine ⟨?_, hLeft, ?_⟩
        · simp only [writeAll, hSent, List.take_append_drop]
        · rw [List.length_drop, List.length_cons] at hMore
          rw [supply_wrote, List.length_cons]
          simp only [writeAll]
          omega
      | retry => exact ih (c :: cs) hRest hSupply
      | failed => exact absurd List.mem_cons_self hFailed

theorem flatten_advance (n : Nat) (segs : List Bytes) : (advance n segs).flatten = segs.flatten.drop n := by
  induction segs generalizing n with
  | nil => simp [advance]
  | cons seg rest ih =>
    unfold advance
    split_ifs with hZero hWhole
    · rw [hZero, List.drop_zero]
    · rw [ih, List.flatten_cons, List.drop_append, List.drop_of_length_le hWhole, List.nil_append]
    · rw [List.flatten_cons, List.flatten_cons, List.drop_append_of_le_length (by omega)]

theorem writev_delivers (segs : List Bytes) (hFailed : .failed ∉ attempts)
    (hSupply : segs.flatten.length ≤ supply attempts) : Delivers attempts segs.flatten (writev attempts segs) := by
  induction attempts generalizing segs with
  | nil =>
    have hNil : segs.flatten = [] := List.length_eq_zero_iff.mp (Nat.le_zero.mp hSupply)
    rw [hNil]
    exact ⟨rfl, hFailed, Nat.le_add_right _ _⟩
  | cons a rest ih =>
    have hRest : .failed ∉ rest := fun h => hFailed (List.mem_cons_of_mem _ h)
    unfold writev
    split_ifs with hDone
    · rw [hDone]
      exact ⟨rfl, hFailed, Nat.le_add_right _ _⟩
    · have hSome := List.length_pos_of_ne_nil hDone
      cases a with
      | wrote n =>
        have hPositive := n.property
        rw [supply_wrote] at hSupply
        obtain ⟨hSent, hLeft, hMore⟩ :=
          ih (advance (min n.val segs.flatten.length) segs) hRest (by
            rw [flatten_advance, List.length_drop]
            omega)
        rw [flatten_advance] at hSent hMore
        refine ⟨?_, hLeft, ?_⟩
        · dsimp only
          rw [hSent, List.take_append_drop]
        · rw [List.length_drop] at hMore
          rw [supply_wrote]
          dsimp only
          omega
      | retry => exact ih segs hRest hSupply
      | failed => exact absurd List.mem_cons_self hFailed

theorem sendFileLoop_delivers (file : Bytes) (attempts : List Attempt) (offset remaining : Nat)
    (hFailed : .failed ∉ attempts) (hSupply : remaining ≤ supply attempts) (hFile : offset + remaining ≤ file.length) :
    Delivers attempts (slice file offset remaining) (sendFileLoop file attempts offset remaining) := by
  induction attempts generalizing offset remaining with
  | nil =>
    obtain rfl : remaining = 0 := Nat.le_zero.mp hSupply
    exact ⟨by simp [sendFileLoop, slice_zero], hFailed, Nat.le_add_right _ _⟩
  | cons a rest ih =>
    have hRest : .failed ∉ rest := fun h => hFailed (List.mem_cons_of_mem _ h)
    cases remaining with
    | zero => exact ⟨by simp [sendFileLoop, slice_zero], hFailed, Nat.le_add_right _ _⟩
    | succ remaining =>
      cases a with
      | wrote n =>
        have hPositive := n.property
        rw [supply_wrote] at hSupply
        simp only [sendFileLoop]
        generalize hTaken : min (min n.val (min (remaining + 1) 0x7fffffff))
          (file.length - offset) = taken
        have hSome : taken ≠ 0 := by omega
        have hLe : taken ≤ remaining + 1 := by omega
        rw [if_neg hSome]
        obtain ⟨hSent, hLeft, hMore⟩ :=
          ih (offset + taken) (remaining + 1 - taken) hRest (by omega) (by omega)
        rw [slice_length _ _ _ (by omega)] at hMore
        refine ⟨?_, hLeft, ?_⟩
        · dsimp only
          rw [hSent, slice, slice, slice, ← List.drop_drop, ← List.take_add, Nat.add_sub_cancel' hLe]
        · rw [slice_length _ _ _ hFile, supply_wrote]
          dsimp only
          omega
      | retry => exact ih offset (remaining + 1) hRest hSupply hFile
      | failed => exact absurd List.mem_cons_self hFailed

def WriteCall.Servable (fs : FileSystem) : WriteCall → Prop
  | .file path size => ∃ contents, fs path = some contents ∧ contents.length = size
  | _ => True

theorem WriteCall.perform_delivers (call : WriteCall)
    (hFailed : .failed ∉ attempts) (hServable : call.Servable fs) (hSupply : (call.bytes fs).length ≤ supply attempts) :
    Delivers attempts (call.bytes fs) (call.perform fs attempts) := by
  cases call with
  | all data => exact writeAll_delivers attempts data hFailed hSupply
  | vec hdr body =>
    have hSegs : (if body = [] then [hdr] else [hdr, body]).flatten = hdr ++ body := by
      split_ifs with hBody <;> simp [hBody]
    have hLoop := writev_delivers attempts (if body = [] then [hdr] else [hdr, body]) hFailed
      (by rw [hSegs]; exact hSupply)
    rw [hSegs] at hLoop
    exact hLoop
  | file path size =>
    obtain ⟨contents, hOpen, rfl⟩ := hServable
    simp only [WriteCall.bytes, WriteCall.perform, hOpen, Option.getD_some, List.take_length]
      at hSupply ⊢
    have hLoop := sendFileLoop_delivers contents attempts 0 contents.length hFailed hSupply (by omega)
    rwa [slice_all] at hLoop

theorem perform_eq (calls : List WriteCall)
    (hFailed : .failed ∉ attempts) (hServable : ∀ call ∈ calls, call.Servable fs)
    (hSupply : (calls.flatMap (WriteCall.bytes fs)).length ≤ supply attempts) :
    perform fs attempts calls = calls.flatMap (WriteCall.bytes fs) := by
  induction calls generalizing attempts with
  | nil => rfl
  | cons call rest ih =>
    rw [List.flatMap_cons, List.length_append] at hSupply
    obtain ⟨hSent, hLeft, hMore⟩ := call.perform_delivers fs attempts hFailed
      (hServable call List.mem_cons_self) (by omega)
    have hRest := ih (call.perform fs attempts).2 hLeft
      (fun c hc => hServable c (List.mem_cons_of_mem _ hc)) (by omega)
    simp only [perform, List.flatMap_cons, hSent, hRest]

def epochDate : Bytes := ascii "Thu, 01 Jan 1970 00:00:00 GMT"

theorem epochDate_line : cr ∉ epochDate ∧ lf ∉ epochDate := by decide

structure SendEnv where
  order : MapOrder
  date : Bytes
  date_line : cr ∉ date ∧ lf ∉ date
  keepAlive : Bool
  handled : Nat

def MAX_REQUESTS : Nat := 100

def SendEnv.connection (env : SendEnv) : Bytes :=
  if env.keepAlive then ascii "keep-alive" else ascii "close"

def notModified (rq : Request) (r : Response) : Bool :=
  let ifNoneMatch := rq.header (ascii "If-None-Match")
  let etag := r.getHeader (ascii "ETag")
  ifNoneMatch ≠ [] ∧ etag ≠ [] ∧ (ifNoneMatch = ascii "*" ∨ ifNoneMatch = etag)

def notModifiedResponse (env : SendEnv) (r : Response) : Response :=
  ((({} : Response).status 304).header (ascii "ETag") (r.getHeader (ascii "ETag"))
    |>.header (ascii "Date") env.date).header (ascii "Connection") env.connection

def isSpaceByte (c : UInt8) : Bool := c = 32 ∨ 9 ≤ c ∧ c ≤ 13

/-- Leading blanks and a sign are accepted, what follows the digits is ignored; nothing when it
throws. -/
def stoul (text : Bytes) : Option Nat :=
  let text := text.dropWhile isSpaceByte
  let negative : Bool := text.head? = some 45
  let digits := (if negative ∨ text.head? = some 43 then text.tail else text).takeWhile isDigit
  if digits = [] ∨ 2 ^ 64 ≤ decimalValue digits then none
  else some (if negative then (2 ^ 64 - decimalValue digits) % 2 ^ 64 else decimalValue digits)

def rangeNotSatisfiable (r : Response) (total : Nat) : Response :=
  ((r.status 416).header (ascii "Content-Range") (ascii "bytes */" ++ render 10 total)).setBody
    (ascii "Range Not Satisfiable")

def partialContent (r : Response) (first last total : Nat) : Response :=
  (((r.status 206).header (ascii "Content-Range")
    (ascii "bytes " ++ render 10 first ++ ascii "-" ++ render 10 last ++ ascii "/" ++ render 10 total)
    ).header (ascii "Accept-Ranges") (ascii "bytes")).setBody (slice r.body first (last - first + 1))

def applyRange (rq : Request) (r : Response) : Response :=
  let range := rq.header (ascii "Range")
  let total := r.body.length
  let final := (total + (2 ^ 64 - 1)) % 2 ^ 64
  if range ≠ [] ∧ r.statusCode = 200 then
    if range.take 6 = ascii "bytes=" then
      let spec := range.drop 6
      match find (ascii "-") spec with
      | none => r
      | some dash =>
        let firstStr := spec.take dash
        let lastStr := spec.drop (dash + 1)
        match (if firstStr ≠ [] then stoul firstStr else some 0),
          (if lastStr ≠ [] then stoul lastStr else some final) with
        | some first, some last =>
          if first > last ∨ first ≥ total then rangeNotSatisfiable r total
          else partialContent r first (if last ≥ total then final else last) total
        | _, _ => rangeNotSatisfiable r total
    else r
  else if range = [] ∧ r.statusCode = 200 then r.header (ascii "Accept-Ranges") (ascii "bytes")
  else r

def stamp (env : SendEnv) (r : Response) : Response :=
  let r := (r.header (ascii "Date") env.date).header (ascii "Connection") env.connection
  if env.keepAlive then
    r.header (ascii "Keep-Alive")
      (ascii "timeout=30, max=" ++ toStringInt ((MAX_REQUESTS : Int) - env.handled))
  else r

def writesOf (order : MapOrder) (r : Response) : List WriteCall :=
  let hdr := r.serializeHeader order
  (if r.hasSendfile then [.all hdr, .file r.sendfilePath r.sendfileSize]
    else [.vec hdr (if r.chunked then r.chunkBuf else r.body)]) ++
  (if r.chunked ∧ r.trailers ≠ [] then [.all r.encodeTrailers] else [])

def sendResponse (env : SendEnv) (rq : Request) (r : Response) : List WriteCall :=
  if r.streamed then []
  else if notModified rq r then [.all ((notModifiedResponse env r).serialize env.order)]
  else writesOf env.order (stamp env (applyRange rq r))

end QbuemStack.Server
