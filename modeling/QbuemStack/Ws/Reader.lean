import QbuemStack.Base.Iteration
import QbuemStack.Ws.Connection
import QbuemStack.Ws.Utf8

/-! The reader that a server is measured against (RFC 6455, sections 5 and 7). It stops at the first
violation or Close frame. -/
namespace QbuemStack.Ws

open Octets WsConnection

inductive Front
  | unfinished
  | tooLong
  | frame (frame : WsFrame) (rest : Bytes)

def lengthField (bits : Nat) (rest : Bytes) : Option (Nat × Bytes) :=
  if bits = 126 then if rest.length < 2 then none else some (readLength (rest.take 2), rest.drop 2)
  else if bits = 127 then if rest.length < 8 then none else some (readLength (rest.take 8), rest.drop 8)
  else some (bits, rest)

def front (limit : Option Nat) : Bytes → Front
  | b0 :: b1 :: rest =>
    match lengthField (b1.toNat % 128) rest with
    | none => .unfinished
    | some (length, rest) =>
      let keySize := if 128 ≤ b1.toNat then 4 else 0
      if limit.any (· < length) then .tooLong
      else if rest.length < keySize + length then .unfinished
      else
        .frame
          { opcode := .ofCode (UInt8.ofNat (b0.toNat % 16))
            fin := 128 ≤ b0.toNat
            rsv1 := b0.toNat / 64 % 2 = 1
            rsv2 := b0.toNat / 32 % 2 = 1
            rsv3 := b0.toNat / 16 % 2 = 1
            masked := 128 ≤ b1.toNat
            payload := xorMask (rest.take keySize) ((rest.drop keySize).take length) }
          (rest.drop (keySize + length))
  | _ => .unfinished

structure Message where
  isText : Bool
  data : Bytes
  deriving DecidableEq

structure Reading where
  left : Bytes := []
  fragments : Option Message := none
  messages : List Message := []
  answered : List Bytes := []
  code : Option UInt16 := none
  deriving DecidableEq

def Opcode.IsControl (op : Opcode) : Prop := op = .close ∨ op = .ping ∨ op = .pong

instance (op : Opcode) : Decidable op.IsControl := inferInstanceAs (Decidable (_ ∨ _))

def Opcode.IsKnown (op : Opcode) : Prop :=
  op.IsControl ∨ op = .continuation ∨ op = .text ∨ op = .binary

instance (op : Opcode) : Decidable op.IsKnown := inferInstanceAs (Decidable (_ ∨ _))

def Violates (fragments : Option Message) (f : WsFrame) : Prop :=
  f.rsv1 ∨ f.rsv2 ∨ f.rsv3 ∨ ¬f.masked ∨ ¬f.opcode.IsKnown ∨
    f.opcode.IsControl ∧ (¬f.fin ∨ 125 < f.payload.length) ∨
    f.opcode = .continuation ∧ fragments = none ∨
    (f.opcode = .text ∨ f.opcode = .binary) ∧ fragments ≠ none

instance (fragments : Option Message) (f : WsFrame) : Decidable (Violates fragments f) := by
  unfold Violates
  infer_instance

def Message.extend (fragments : Option Message) (f : WsFrame) : Message :=
  match fragments with
  | none => ⟨f.opcode = .text, f.payload⟩
  | some m => ⟨m.isText, m.data ++ f.payload⟩

namespace Reading

def stop (code : UInt16) (r : Reading) : Reading :=
  { r with left := [], fragments := none, code := some code }

section

variable (cfg : WsServerConfig)

def deliver (message : Message) (r : Reading) : Reading :=
  if message.isText ∧ cfg.validateUtf8 ∧ ¬WellFormedText message.data then r.stop WsCloseCode.invalidPayload
  else { r with messages := r.messages ++ [message] }

def absorb (f : WsFrame) (r : Reading) : Reading :=
  if Violates r.fragments f then r.stop WsCloseCode.protocolError
  else
    match f.opcode with
    | .ping => { r with answered := r.answered ++ [f.payload] }
    | .pong => r
    | .close => r.stop (receivedCode f.payload)
    | _ =>
      let message := Message.extend r.fragments f
      if cfg.maxMessageSize < message.data.length then r.stop WsCloseCode.messageTooBig
      else if f.fin = false then { r with fragments := some message }
      else { r with fragments := none }.deliver cfg message

variable (limit : Option Nat)

def round (r : Reading) : Reading ⊕ Reading :=
  match front limit r.left with
  | .unfinished => .inl r
  | .tooLong => .inl (r.stop WsCloseCode.messageTooBig)
  | .frame f rest =>
    let next := { r with left := rest }.absorb cfg f
    if next.code.isSome then .inl next else .inr next

def drain (r : Reading) : Reading := (Iteration.run (round cfg limit) (r.left.length + 1) r).getD r

def feed (bytes : Bytes) (r : Reading) : Reading :=
  if r.code.isSome then r else { r with left := r.left ++ bytes }.drain cfg limit

end

end Reading

def readStream (cfg : WsServerConfig) (limit : Option Nat) (stream : Bytes) : Reading :=
  { left := stream : Reading }.drain cfg limit

theorem lengthField_append {bits length : Nat} {rest behind : Bytes}
    (h : lengthField bits rest = some (length, behind)) (more : Bytes) :
    lengthField bits (rest ++ more) = some (length, behind ++ more) ∧ behind.length ≤ rest.length := by
  unfold lengthField at h ⊢
  by_cases hMedium : bits = 126
  · rw [if_pos hMedium] at h ⊢
    split_ifs at h with hShort
    cases h
    rw [if_neg (by rw [List.length_append]; omega), List.take_append_of_le_length (by omega),
      List.drop_append_of_le_length (by omega)]
    exact ⟨rfl, by rw [List.length_drop]; omega⟩
  by_cases hLong : bits = 127
  · rw [if_neg hMedium, if_pos hLong] at h ⊢
    split_ifs at h with hShort
    cases h
    rw [if_neg (by rw [List.length_append]; omega), List.take_append_of_le_length (by omega),
      List.drop_append_of_le_length (by omega)]
    exact ⟨rfl, by rw [List.length_drop]; omega⟩
  · rw [if_neg hMedium, if_neg hLong] at h ⊢
    cases h
    exact ⟨rfl, le_rfl⟩

variable {limit : Option Nat}

theorem front_append {stream rest : Bytes} {f : WsFrame} (h : front limit stream = .frame f rest) (more : Bytes) :
    front limit (stream ++ more) = .frame f (rest ++ more) ∧ rest.length < stream.length := by
  match stream, h with
  | b0 :: b1 :: behind, h =>
    simp only [front, List.cons_append] at h ⊢
    cases hField : lengthField (b1.toNat % 128) behind with
    | none => rw [hField] at h; cases h
    | some field =>
      obtain ⟨length, payload⟩ := field
      obtain ⟨hMore, hShorter⟩ := lengthField_append hField more
      rw [hField] at h
      rw [hMore]
      simp only at h ⊢
      generalize (if 128 ≤ b1.toNat then 4 else 0) = keySize at h ⊢
      split_ifs at h with hLimit hShort
      obtain ⟨rfl, rfl⟩ := Front.frame.inj h
      rw [if_neg hLimit, if_neg (by rw [List.length_append]; omega),
        List.take_append_of_le_length (by omega), List.drop_append_of_le_length (by omega),
        List.drop_append_of_le_length (by omega),
        List.take_append_of_le_length (by rw [List.length_drop]; omega)]
      exact ⟨rfl, by rw [List.length_drop, List.length_cons, List.length_cons]; omega⟩

theorem front_append_tooLong {stream : Bytes} (h : front limit stream = .tooLong) (more : Bytes) :
    front limit (stream ++ more) = .tooLong := by
  match stream, h with
  | b0 :: b1 :: behind, h =>
    simp only [front, List.cons_append] at h ⊢
    cases hField : lengthField (b1.toNat % 128) behind with
    | none => rw [hField] at h; cases h
    | some field =>
      rw [hField] at h
      rw [(lengthField_append hField more).1]
      simp only at h ⊢
      split_ifs at h with hLimit hShort
      rw [if_pos hLimit]

namespace Reading

variable {cfg : WsServerConfig}

theorem absorb_cases (f : WsFrame) (r : Reading) :
    (∃ code, ∀ stream, { r with left := stream }.absorb cfg f = r.stop code) ∨
      ∃ fragments messages answered, ∀ stream,
        { r with left := stream }.absorb cfg f = ⟨stream, fragments, messages, answered, r.code⟩ := by
  by_cases hViolates : Violates r.fragments f
  · exact .inl ⟨_, fun stream => if_pos hViolates⟩
  have hSound : ∀ stream, ¬Violates { r with left := stream }.fragments f := fun _ => hViolates
  simp only [absorb, if_neg (hSound _)]
  cases f.opcode with
  | close => exact .inl ⟨_, fun _ => rfl⟩
  | ping => exact .inr ⟨r.fragments, r.messages, r.answered ++ [f.payload], fun _ => rfl⟩
  | pong => exact .inr ⟨r.fragments, r.messages, r.answered, fun _ => rfl⟩
  | continuation | text | binary | reserved =>
    simp only [deliver]
    split_ifs
    · exact .inl ⟨_, fun _ => rfl⟩
    · exact .inr ⟨_, _, _, fun _ => rfl⟩
    · exact .inl ⟨_, fun _ => rfl⟩
    · exact .inr ⟨_, _, _, fun _ => rfl⟩

theorem round_left {r next : Reading} (h : r.round cfg limit = .inr next) :
    next.left.length < r.left.length ∧ next.code = none := by
  unfold round at h
  cases hFront : front limit r.left with
  | unfinished | tooLong => rw [hFront] at h; cases h
  | frame f rest =>
    rw [hFront] at h
    simp only at h
    split_ifs at h with hCode
    obtain rfl := Sum.inr.inj h
    refine ⟨?_, Option.not_isSome_iff_eq_none.mp hCode⟩
    rcases absorb_cases f r with ⟨code, hStop⟩ | ⟨fragments, messages, answered, hKept⟩
    · rw [hStop] at hCode
      exact absurd rfl hCode
    · rw [hKept]
      exact (front_append hFront []).2

theorem drain_of_exit {r result : Reading} (h : r.round cfg limit = .inl result) : r.drain cfg limit = result := by
  rw [drain, Iteration.run_exit _ h, Option.getD_some]

theorem drain_of_round {r next : Reading} (h : r.round cfg limit = .inr next) :
    r.drain cfg limit = next.drain cfg limit := by
  have hStep : ∀ s t : Reading, True → s.round cfg limit = .inr t → True ∧ t.left.length < s.left.length :=
    fun s t _ hRound => ⟨trivial, (round_left hRound).1⟩
  obtain ⟨result, hResult⟩ := Iteration.run_total (round cfg limit) (fun _ => True) (fun s => s.left.length) hStep
    (next.left.length + 1) next trivial (Nat.lt_succ_self _)
  have hSpare := Iteration.run_mono _ _ (r.left.length - (next.left.length + 1)) next result hResult
  rw [Nat.add_sub_cancel' (round_left h).1] at hSpare
  rw [drain, drain, Iteration.run_round _ h, hSpare, hResult, Option.getD_some, Option.getD_some]

theorem feed_stop (r : Reading) (code : UInt16) (more : Bytes) : (r.stop code).feed cfg limit more = r.stop code :=
  if_pos rfl

theorem drain_append (r : Reading) (hRunning : r.code = none) (more : Bytes) :
    { r with left := r.left ++ more }.drain cfg limit = (r.drain cfg limit).feed cfg limit more := by
  induction hLength : r.left.length using Nat.strong_induction_on generalizing r with
  | _ n ih =>
  subst hLength
  have hNone : ¬r.code.isSome = true := by
    rw [hRunning]
    decide
  cases hFront : front limit r.left with
  | unfinished =>
    have hExit : r.round cfg limit = .inl r := by rw [round, hFront]
    rw [drain_of_exit hExit, feed, if_neg hNone]
  | tooLong =>
    have hExit : r.round cfg limit = .inl (r.stop WsCloseCode.messageTooBig) := by rw [round, hFront]
    have hMore : { r with left := r.left ++ more }.round cfg limit = .inl (r.stop WsCloseCode.messageTooBig) := by
      rw [round, front_append_tooLong hFront more]
      rfl
    rw [drain_of_exit hExit, drain_of_exit hMore, feed_stop]
  | frame f rest =>
    obtain ⟨hMore, -⟩ := front_append hFront more
    rcases @absorb_cases cfg f r with ⟨code, hStop⟩ | ⟨fragments, messages, answered, hKept⟩
    · have hExit : r.round cfg limit = .inl (r.stop code) := by
        simp only [round, hFront, hStop]
        rfl
      have hExitMore : { r with left := r.left ++ more }.round cfg limit = .inl (r.stop code) := by
        simp only [round, hMore, hStop]
        rfl
      rw [drain_of_exit hExit, drain_of_exit hExitMore, feed_stop]
    · have hRound : r.round cfg limit = .inr ⟨rest, fragments, messages, answered, r.code⟩ := by
        simp only [round, hFront, hKept]
        exact if_neg hNone
      have hRoundMore : { r with left := r.left ++ more }.round cfg limit =
          .inr ⟨rest ++ more, fragments, messages, answered, r.code⟩ := by
        simp only [round, hMore, hKept]
        exact if_neg hNone
      rw [drain_of_round hRound, drain_of_round hRoundMore]
      exact ih rest.length (round_left hRound).1 ⟨rest, fragments, messages, answered, r.code⟩ hRunning rfl

end Reading

theorem readStream_append (cfg : WsServerConfig) (stream more : Bytes) :
    readStream cfg limit (stream ++ more) = (readStream cfg limit stream).feed cfg limit more :=
  Reading.drain_append { left := stream } rfl more

end QbuemStack.Ws
