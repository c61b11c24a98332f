import QbuemStack.Server.Dispatch

/-! One connection of `App::listen`: its buffer, its read callback, its two timers, and the
coroutines that wait for something else. -/
namespace QbuemStack.Server

open Octets Http

theorem fits_empty : 0 ≤ ([] : Bytes).length := Nat.zero_le _

/-- Bytes behind the end stay where they are until they are overwritten. -/
structure Buffer where
  mem : Bytes := []
  size : Nat := 0
  fits : size ≤ mem.length := by exact fits_empty

namespace Buffer

def data (b : Buffer) : Bytes := b.mem.take b.size

def append (b : Buffer) (more : Bytes) : Buffer :=
  { mem := b.data ++ more ++ 0 :: b.mem.drop (b.size + more.length + 1)
    size := b.size + more.length
    fits := by
      simp only [data, List.length_append, List.length_take, List.length_cons]
      have hFits := b.fits
      omega }

def erase (b : Buffer) (n : Nat) : Buffer :=
  { mem := b.data.drop n ++ 0 :: b.mem.drop (b.size - n + 1)
    size := b.size - n
    fits := by
      simp only [data, List.length_append, List.length_drop, List.length_take, List.length_cons]
      have hFits := b.fits
      omega }

def clear (b : Buffer) : Buffer := b.erase b.size

theorem data_length (b : Buffer) : b.data.length = b.size := by
  rw [data, List.length_take, Nat.min_eq_left b.fits]

theorem data_append (b : Buffer) (more : Bytes) : (b.append more).data = b.data ++ more := by
  have hLength : (b.append more).size = (b.data ++ more).length := by
    rw [List.length_append, data_length]
    rfl
  show ((b.data ++ more) ++ 0 :: b.mem.drop (b.size + more.length + 1)).take (b.append more).size = _
  rw [hLength, List.take_left]

theorem data_erase (b : Buffer) (n : Nat) : (b.erase n).data = b.data.drop n := by
  have hLength : (b.erase n).size = (b.data.drop n).length := by
    rw [List.length_drop, data_length]
    rfl
  show (b.data.drop n ++ 0 :: b.mem.drop (b.size - n + 1)).take (b.erase n).size = _
  rw [hLength, List.take_left]

end Buffer

structure ConnCtx where
  buf : Buffer := {}
  handled : Nat := 0
  sent100 : Bool := false
  clientIp : Bytes

/-- `p.size() - 3` is a `size_t`, so with no match a path of two bytes passes the comparison. -/
def pathRejected (p : Bytes) : Bool :=
  (find (ascii "/../") p).isSome ||
    (match find (ascii "/..") p with
      | some i => i + 3 = p.length
      | none => p.length = 2) ||
    (find (ascii "%2e%2e") p).isSome || (find (ascii "%2E%2E") p).isSome ||
    (find (ascii "%2e.") p).isSome || (find (ascii ".%2e") p).isSome

def decodeDots : Bytes → Bytes
  | 37 :: 50 :: c :: rest =>
    if c = 101 ∨ c = 69 then 46 :: decodeDots rest else 37 :: decodeDots (50 :: c :: rest)
  | c :: rest => c :: decodeDots rest
  | [] => []

/-- What the guard is for: a segment that names the parent directory. -/
def Traverses (p : Bytes) : Prop := ∃ segment ∈ p.splitOn 47, decodeDots segment = ascii ".."

instance (p : Bytes) : Decidable (Traverses p) := inferInstanceAs (Decidable (∃ s ∈ p.splitOn 47, _))

def dotSpellings : List Bytes := [ascii ".", ascii "%2e", ascii "%2E"]

def parentSpellings : List Bytes := dotSpellings.flatMap fun first => dotSpellings.map (first ++ ·)

def searchedSpellings : List Bytes := [ascii "%2e%2e", ascii "%2E%2E", ascii "%2e.", ascii ".%2e"]

def unsearchedSpellings : List Bytes := [ascii "%2e%2E", ascii "%2E%2e", ascii "%2E.", ascii ".%2E"]

theorem decodeDots_eq_cons {s rest : Bytes} (h : decodeDots s = 46 :: rest) :
    ∃ dot ∈ dotSpellings, ∃ more, s = dot ++ more ∧ decodeDots more = rest := by
  fun_cases decodeDots s with
  | case1 c more hc =>
    rw [decodeDots, if_pos hc, List.cons.injEq] at h
    rcases hc with rfl | rfl
    · exact ⟨ascii "%2e", by simp [dotSpellings], more, rfl, h.2⟩
    · exact ⟨ascii "%2E", by simp [dotSpellings], more, rfl, h.2⟩
  | case2 c more hc =>
    rw [decodeDots, if_neg hc, List.cons.injEq] at h
    exact absurd h.1 (by decide)
  | case3 c more hShape =>
    rw [decodeDots, List.cons.injEq] at h
    · obtain ⟨rfl, hMore⟩ := h
      exact ⟨ascii ".", by simp [dotSpellings], more, rfl, hMore⟩
    · exact hShape
  | case4 => cases h

theorem decodeDots_eq_nil {s : Bytes} (h : decodeDots s = []) : s = [] := by
  fun_cases decodeDots s with
  | case1 c more hc => rw [decodeDots, if_pos hc] at h; cases h
  | case2 c more hc => rw [decodeDots, if_neg hc] at h; cases h
  | case3 c more hShape => rw [decodeDots] at h; cases h; exact hShape
  | case4 => rfl

/-- A segment decodes to two dots just if it is one of their nine spellings. -/
theorem decodeDots_eq_parent_iff (segment : Bytes) : decodeDots segment = ascii ".." ↔ segment ∈ parentSpellings := by
  constructor
  · intro h
    obtain ⟨first, hFirst, more, rfl, hMore⟩ := decodeDots_eq_cons h
    obtain ⟨second, hSecond, rest, rfl, hRest⟩ := decodeDots_eq_cons hMore
    rw [decodeDots_eq_nil hRest, List.append_nil]
    exact List.mem_flatMap.mpr ⟨first, hFirst, List.mem_map.mpr ⟨second, hSecond, rfl⟩⟩
  · exact (by decide +kernel : ∀ s ∈ parentSpellings, decodeDots s = ascii "..") segment

def segments (p : Bytes) : List Bytes := p.splitOn 47

def innerSegments (p : Bytes) : List Bytes := (segments p).tail.dropLast

/-- The path has two bytes, or one of the spellings searched for stands inside a segment. -/
def Alarms (p : Bytes) : Prop := p.length = 2 ∨ ∃ s ∈ segments p, ∃ spelling ∈ searchedSpellings, spelling <:+: s

/-- The parent stands in a spelling that is not searched for, at the front, or at the end behind an
earlier segment that begins with two dots, and nothing else makes the guard refuse the path. -/
structure Missed (p : Bytes) : Prop where
  parent : (∃ s ∈ segments p, s ∈ unsearchedSpellings) ∨ (segments p).head? = some (ascii "..") ∨
    (segments p).tail.getLast? = some (ascii "..")
  inner : ascii ".." ∉ innerSegments p
  last : (segments p).tail.getLast? = some (ascii "..") → ∃ s ∈ innerSegments p, ascii ".." <+: s
  quiet : ¬Alarms p

/-- The guard refuses a path for its length or for a spelling inside a longer segment. -/
structure Refused (p : Bytes) : Prop where
  alarms : Alarms p
  harmless : ∀ s ∈ segments p, s ∉ parentSpellings

theorem find_dots_end_iff (front : Bytes) : find (ascii "/..") (front ++ ascii "/..") = some front.length ↔
    ¬ascii "/.." <:+: front ++ ascii "/." := by
  have hTake : (front ++ ascii "/..").take (front.length + 2) = front ++ ascii "/." := by
    rw [List.take_length_add_append]
    rfl
  rw [← find_isSome_iff, ← hTake]
  constructor
  · intro hFind hSome
    obtain ⟨i, hi⟩ := Option.isSome_iff_exists.mp hSome
    have hInside : i + 3 ≤ _ := find_le _ _ i hi
    have hShort := List.length_take_le (front.length + 2) (front ++ ascii "/..")
    rw [find_take _ _ _ _ (hInside.trans hShort), hFind, Option.some.injEq] at hi
    omega
  · intro hNone
    obtain ⟨i, hi⟩ := Option.isSome_iff_exists.mp
      ((find_isSome_iff _ _).mpr (List.suffix_append front (ascii "/..")).isInfix)
    have hInside : i + 3 ≤ _ := find_le _ _ i hi
    rw [List.length_append, show (ascii "/..").length = 3 from rfl] at hInside
    rw [hi, Option.some.injEq]
    by_contra hEarly
    have hCut := (find_take _ (front ++ ascii "/..") i (front.length + 2) (show i + 3 ≤ _ by omega)).mpr hi
    rw [hCut] at hNone
    exact hNone rfl

/-- The first `/..` is at the end just if the last segment is `..` and no segment before it begins
so. -/
theorem find_dots_last_iff (p : Bytes) : find (ascii "/..") p = some (p.length - 3) ↔
    (segments p).tail.getLast? = some (ascii "..") ∧ ∀ s ∈ innerSegments p, ¬ascii ".." <+: s := by
  have hSuffix : find (ascii "/..") p = some (p.length - 3) → ascii "/.." <:+ p := by
    intro hFind
    obtain ⟨-, hHere, -⟩ := (find_eq_some_iff _ p _).mp hFind
    have hInside : p.length - 3 + 3 ≤ p.length := find_le _ p _ hFind
    have hLength : 3 = (p.drop (p.length - 3)).length := by
      rw [List.length_drop]
      omega
    rw [hHere.eq_of_length hLength]
    exact List.drop_suffix _ p
  rw [segments, ← cons_suffix_iff (by decide), ← and_iff_right_of_imp hSuffix]
  refine and_congr_right ?_
  rintro ⟨front, rfl⟩
  obtain ⟨first, more, hFront⟩ := List.exists_cons_of_ne_nil (List.splitOn_ne_nil 47 front)
  have hInner : innerSegments (front ++ ascii "/..") = more := by
    rw [innerSegments, segments, show ascii "/.." = 47 :: ascii ".." from rfl, List.splitOn_append_cons_self, hFront,
      List.splitOn_eq_singleton (by decide)]
    simp
  have hLength : (front ++ ascii "/..").length - 3 = front.length := by
    rw [List.length_append]
    rfl
  rw [hInner, hLength, find_dots_end_iff, show ascii "/.." = 47 :: ascii ".." from rfl, cons_infix_iff (by decide),
    show ascii "/." = 47 :: ascii "." from rfl, List.splitOn_append_cons_self, hFront,
    List.splitOn_eq_singleton (by decide)]
  have hDot : ¬ascii ".." <+: ascii "." := by decide
  simp [hDot]

/-- What the guard refuses, segment by segment. -/
theorem pathRejected_iff (p : Bytes) : pathRejected p = true ↔ Alarms p ∨ ascii ".." ∈ innerSegments p ∨
    (segments p).tail.getLast? = some (ascii "..") ∧ ∀ s ∈ innerSegments p, ¬ascii ".." <+: s := by
  have hLast : (match find (ascii "/..") p with
      | some i => decide (i + 3 = p.length)
      | none => decide (p.length = 2)) = true ↔ p.length = 2 ∨ find (ascii "/..") p = some (p.length - 3) := by
    cases h : find (ascii "/..") p with
    | none => simp
    | some i =>
      have hInside : i + 3 ≤ p.length := find_le _ p i h
      simp only [decide_eq_true_eq, Option.some.injEq]
      omega
  have hInner : ascii "/../" <:+: p ↔ ascii ".." ∈ innerSegments p :=
    @cons_append_infix_iff _ _ 47 (ascii "..") p (by decide)
  have hSpelling : ∀ spelling ∈ searchedSpellings, spelling <:+: p ↔ ∃ s ∈ segments p, spelling <:+: s :=
    fun spelling hMem => infix_iff_piece ((by decide : ∀ w ∈ searchedSpellings, 47 ∉ w) spelling hMem)
  have hAlarms : Alarms p ↔ p.length = 2 ∨ ∃ spelling ∈ searchedSpellings, spelling <:+: p := by
    rw [Alarms]
    refine or_congr_right ⟨?_, ?_⟩
    · rintro ⟨s, hs, spelling, hMem, hInfix⟩
      exact ⟨spelling, hMem, (hSpelling spelling hMem).mpr ⟨s, hs, hInfix⟩⟩
    · rintro ⟨spelling, hMem, hInfix⟩
      obtain ⟨s, hs, hInside⟩ := (hSpelling spelling hMem).mp hInfix
      exact ⟨s, hs, spelling, hMem, hInside⟩
  rw [hAlarms, ← hInner, ← find_dots_last_iff]
  simp only [pathRejected, Bool.or_eq_true, hLast, find_isSome_iff, searchedSpellings, List.mem_cons, List.not_mem_nil,
    false_or, or_and_right, exists_or, exists_eq_left, or_assoc, or_comm, or_left_comm]

theorem traverses_iff (p : Bytes) : Traverses p ↔ ∃ s ∈ segments p, s ∈ parentSpellings := by
  simp only [Traverses, decodeDots_eq_parent_iff, segments]

/-- The parent as a last or an inner segment is one of the path. -/
theorem traverses_of_tail {p : Bytes} (h : ascii ".." ∈ (segments p).tail) : Traverses p :=
  (traverses_iff p).mpr ⟨ascii "..", List.mem_of_mem_tail h, by decide⟩

/-- The paths that traverse and are not refused. -/
theorem missed_iff (p : Bytes) : Missed p ↔ Traverses p ∧ ¬pathRejected p = true := by
  rw [pathRejected_iff, not_or, not_or, not_and]
  constructor
  · intro h
    refine ⟨?_, h.quiet, h.inner, fun hLast hNone => ?_⟩
    · rcases h.parent with ⟨s, hs, hSpelling⟩ | hHead | hLast
      · exact (traverses_iff p).mpr
          ⟨s, hs, (by decide : ∀ s ∈ unsearchedSpellings, s ∈ parentSpellings) s hSpelling⟩
      · exact (traverses_iff p).mpr ⟨_, List.mem_of_head? hHead, by decide⟩
      · exact traverses_of_tail (List.mem_of_getLast? hLast)
    · obtain ⟨s, hs, hDots⟩ := h.last hLast
      exact hNone s hs hDots
  · rintro ⟨hTraverses, hQuiet, hInner, hLast⟩
    refine ⟨?_, hInner, fun h => by simpa using hLast h, hQuiet⟩
    obtain ⟨s, hs, hParent⟩ := (traverses_iff p).mp hTraverses
    rcases (by decide : ∀ s ∈ parentSpellings, s ∈ unsearchedSpellings ∨ s ∈ searchedSpellings ∨ s = ascii "..")
      s hParent with h | h | rfl
    · exact .inl ⟨s, hs, h⟩
    · exact (hQuiet (.inr ⟨s, hs, s, h, List.infix_rfl⟩)).elim
    · obtain ⟨first, rest, hSplit⟩ := List.exists_cons_of_ne_nil (List.splitOn_ne_nil 47 p)
      rw [innerSegments] at hInner
      rw [segments, hSplit] at hs hInner ⊢
      rcases List.mem_cons.mp hs with rfl | hRest
      · exact .inr (.inl rfl)
      · rw [List.tail_cons] at hInner
        have hShape := List.dropLast_append_getLast (List.ne_nil_of_mem hRest)
        rw [← hShape, List.mem_append, or_iff_right hInner, List.mem_singleton] at hRest
        exact .inr (.inr (by rw [List.tail_cons, ← hShape, ← hRest, List.getLast?_concat]))

/-- The paths that are refused and do not traverse. -/
theorem refused_iff (p : Bytes) : Refused p ↔ pathRejected p = true ∧ ¬Traverses p := by
  rw [pathRejected_iff]
  constructor
  · intro h
    refine ⟨.inl h.alarms, fun hTraverses => ?_⟩
    obtain ⟨s, hs, hParent⟩ := (traverses_iff p).mp hTraverses
    exact h.harmless s hs hParent
  · rintro ⟨hAlarms | hInner | ⟨hLast, -⟩, hNot⟩
    · exact ⟨hAlarms, fun s hs hParent => hNot ((traverses_iff p).mpr ⟨s, hs, hParent⟩)⟩
    · exact (hNot (traverses_of_tail (List.mem_of_mem_dropLast hInner))).elim
    · exact (hNot (traverses_of_tail (List.mem_of_getLast? hLast))).elim

/-- The guard refuses exactly the paths with a segment that decodes to `..`, but for those it misses
and those it refuses without one. -/
theorem pathRejected_exact_iff (p : Bytes) : (pathRejected p = true ↔ Traverses p) ↔ ¬Missed p ∧ ¬Refused p := by
  rw [missed_iff, refused_iff]
  tauto

/-- A harmless path of two bytes is refused; an encoded parent is let through. -/
theorem path_guard_misjudges :
    (pathRejected (ascii "/a") = true ∧ ¬Traverses (ascii "/a")) ∧
      pathRejected (ascii "/x/%2E./y") = false ∧ Traverses (ascii "/x/%2E./y") := by
  decide +kernel

def toLower (c : UInt8) : UInt8 := if 65 ≤ c ∧ c ≤ 90 then c + 32 else c

def isUpgrade {σ ε : Type} (app : App σ ε) (rq : Request) : Bool :=
  (rq.header (ascii "Upgrade")).map toLower = ascii "websocket" ∧ rq.path.bytes ∈ app.wsPaths

def refusal (env : ServerEnv) (status : Int) (text : Bytes) : Response :=
  ((({} : Response).status status).header (ascii "Connection") (ascii "close")
    |>.header (ascii "Date") env.date).setBody text

def refuse (env : ServerEnv) (r : Response) : List Effect :=
  [.notice (r.serialize env.order), .unregister, .close]

structure Turn (σ : Type) where
  ctx : ConnCtx
  world : σ
  log : List Effect
  suspended : Option (Proc σ × Response) := none

section Callback

variable {σ ε : Type} (app : App σ ε) (env : ServerEnv)

/-- The `Connection` header is read after the buffer was moved. -/
def serve (ctx : ConnCtx) (w : σ) (rq : Request) (parsed : Nat) : Turn σ :=
  let ctx := { ctx with buf := ctx.buf.erase parsed }
  let rq := rq.setRemoteAddr ctx.clientIp
  let keepAlive := (rq.reread ctx.buf.mem).header (ascii "Connection") ≠ ascii "close" ∧
    ctx.handled < MAX_REQUESTS
  let (s, suspended) := dispatch app env keepAlive rq
    { mem := ctx.buf.mem, handled := ctx.handled, response := {}, world := w
      log := [.dispatched (rq.reread ctx.buf.mem)] }
  { ctx := ctx, world := s.world, log := s.log, suspended := suspended.map fun k => (k, s.response) }

def onComplete (ctx : ConnCtx) (w : σ) (rq : Request) (parsed : Nat) : Turn σ :=
  let ctx := { ctx with sent100 := false, handled := ctx.handled + 1 }
  if pathRejected rq.path.bytes then
    { ctx := ctx, world := w, log := refuse env (refusal env 400 (ascii "Bad Request")) }
  else if isUpgrade app rq then
    { ctx := ctx, world := w, log := [.cancelRead, .disarmIdle, .unregister, .handOff] }
  else serve app env ctx w rq parsed

def parseFailure (env : ServerEnv) (status : Nat) : Response :=
  refusal env (if status ≠ 0 then status else 400)
    (if status = 413 then ascii "Payload Too Large" else ascii "Bad Request")

def onData (ctx : ConnCtx) (w : σ) : Turn σ :=
  match HttpParser.parse {} ctx.buf.data {} with
  | (p, _, none) =>
    { ctx := ctx, world := w, log := .cancelRead :: refuse env (parseFailure env p.errorStatus) }
  | (p, rq, some parsed) =>
    if p.isComplete then
      let turn := onComplete app env ctx w rq parsed
      { turn with log := .cancelRead :: turn.log }
    else if p.headersComplete ∧ ¬ctx.sent100 ∧ rq.header (ascii "Expect") = ascii "100-continue" then
      { ctx := { ctx with sent100 := true }, world := w
        log := [.notice (ascii "HTTP/1.1 100 Continue\r\n\r\n"), .armIdle] }
    else { ctx := ctx, world := w, log := [.armIdle] }

def onRead (ctx : ConnCtx) (w : σ) (bytes : Bytes) : Turn σ :=
  let turn := onData app env { ctx with buf := ctx.buf.append bytes } w
  { turn with
    log := .disarmIdle :: (if ctx.buf.size = 0 then [.armRead] else []) ++ turn.log }

end Callback

structure Task (σ : Type) where
  request : Nat
  proc : Proc σ
  response : Response

/-- What other code does to the shared state in between is left open: every step is given the state
it finds. -/
structure Conn (σ : Type) where
  ctx : ConnCtx
  idle : Bool := true
  reading : Bool := false
  dispatched : Nat := 0
  tasks : List (Task σ) := []

inductive Event where
  | read (bytes : Bytes)
  | eof
  | idleExpired
  | readExpired
  | resume (i : Nat)

structure Input (σ : Type) where
  env : ServerEnv
  world : σ
  event : Event

def isDispatched : Effect → Bool
  | .dispatched _ => true
  | _ => false

def timeoutResponse : Response :=
  ((({} : Response).status 408).header (ascii "Connection") (ascii "close")).setBody
    (ascii "Request Timeout")

section React

variable {σ ε : Type}

def Conn.mark (c : Conn σ) : Effect → Conn σ
  | .armIdle => { c with idle := true }
  | .disarmIdle => { c with idle := false }
  | .armRead => { c with reading := true }
  | .cancelRead => { c with reading := false }
  | _ => c

def Conn.marks (c : Conn σ) (effects : List Effect) : Conn σ := effects.foldl Conn.mark c

def Conn.frame (c : Conn σ) (w : σ) (t : Task σ) : Frame σ :=
  { mem := c.ctx.buf.mem, handled := c.ctx.handled, response := t.response, world := w, log := [] }

def Conn.onEvent (app : App σ ε) (c : Conn σ) (i : Input σ) : Conn σ × List Effect :=
  match i.event with
  | .read bytes =>
    let turn := onRead app i.env c.ctx i.world bytes
    ({ c.marks turn.log with
        ctx := turn.ctx
        dispatched := c.dispatched + turn.log.countP isDispatched
        tasks := c.tasks ++ turn.suspended.toList.map fun k => ⟨c.dispatched, k.1, k.2⟩ },
      turn.log)
  | .eof =>
    let effects := [.disarmIdle, .cancelRead, .unregister, .close]
    (c.marks effects, effects)
  | .idleExpired => ({ c with idle := false }, [.unregister, .close])
  | .readExpired =>
    ({ c with reading := false },
      [.notice (timeoutResponse.serialize i.env.order), .unregister, .close])
  | .resume n =>
    match c.tasks[n]? with
    | none => (c, [])
    | some t =>
      let (s, rest) := t.proc.run (c.frame i.world t)
      ({ c.marks s.log with
          tasks := match rest with
            | none => c.tasks.eraseIdx n
            | some k => c.tasks.set n { t with proc := k, response := s.response } },
        s.log)

def Conn.serves (c : Conn σ) : Event → Nat
  | .resume n => match c.tasks[n]? with
    | some t => t.request
    | none => c.dispatched
  | _ => c.dispatched

end React

structure Line (σ : Type) where
  conn : Conn σ
  registered : Bool := true
  closed : Bool := false
  log : List (Nat × Effect) := []

section Line

variable {σ ε : Type}

def Line.accepted (ip : Bytes) : Line σ := { conn := { ctx := { clientIp := ip } } }

def Line.enabled (l : Line σ) : Event → Bool
  | .read bytes => l.registered && bytes ≠ []
  | .eof => l.registered
  | .idleExpired => l.conn.idle
  | .readExpired => l.conn.reading
  | .resume n => n < l.conn.tasks.length

def isUnregister : Effect → Bool
  | .unregister => true
  | _ => false

def isClose : Effect → Bool
  | .close => true
  | _ => false

def Line.step (app : App σ ε) (l : Line σ) (i : Input σ) : Line σ :=
  if l.enabled i.event then
    let (conn, effects) := l.conn.onEvent app i
    { conn := conn
      registered := l.registered && !effects.any isUnregister
      closed := l.closed || effects.any isClose
      log := l.log ++ effects.map fun x => (l.conn.serves i.event, x) }
  else l

def Line.run (app : App σ ε) (l : Line σ) (inputs : List (Input σ)) : Line σ :=
  inputs.foldl (Line.step app) l

end Line

end QbuemStack.Server
