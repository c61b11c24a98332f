import Mathlib.Logic.Relation
import QbuemStack.Http.HeadLines

/-! Reading a request in pieces with one parser object. -/
namespace QbuemStack.Http.HttpParser

open Octets Iteration

theorem headLoop_take (data : Bytes) (m : Nat) (s : Cursor) (hm : m ≤ data.length)
    (hStart : s.start ≤ s.pos) (hPos : (headLoop data s).pos ≤ m)
    (hOut : inHead (headLoop data s).parser.state = false) : headLoop (data.take m) s = headLoop data s := by
  have hChange := headLoop_change (data.take m) (data.drop m) [] s hStart
  rw [List.take_append_drop, List.append_nil, List.length_take, min_eq_left hm] at hChange
  exact hChange hPos hOut

/-- The cursor as the next call sees it, over the input that begins `origin` bytes later. -/
def moved (req : Request) (origin start : Nat) (s : Cursor) : Cursor :=
  { parser := s.parser, req := req, pos := s.pos - origin, start := start }

def Visits (data : Bytes) : Cursor → Cursor → Prop :=
  Relation.ReflTransGen fun s t => chunkRound data s = .inr t

variable {data : Bytes} {s t : Cursor}

theorem Visits.pos_le (h : Visits data s t) : s.pos ≤ t.pos := by
  induction h with
  | refl => exact le_rfl
  | tail _ hStep ih => exact ih.trans (chunkRound_inr hStep).2.1

variable (req : Request) (origin start : Nat)

theorem line_slice (data : Bytes) (origin count : Nat) {pos eol : Nat} (hOrigin : origin ≤ pos) (hFrom : pos ≤ eol)
    (hEnd : eol ≤ origin + count) :
    slice (slice data origin count) (pos - origin) (eol - origin - (pos - origin)) = slice data pos (eol - pos) := by
  rw [show eol - origin - (pos - origin) = eol - pos by omega]
  exact slice_slice data origin count pos _ hOrigin (by omega)

theorem chunkRound_moved (count : Nat) (h : chunkRound data s = .inr t) (hOrigin : origin ≤ s.pos)
    (hPos : t.pos ≤ origin + count) (hCount : origin + count ≤ data.length) :
    chunkRound (slice data origin count) (moved req origin start s) = .inr (moved req origin start t) := by
  have hLength : (slice data origin count).length = count := slice_length _ _ _ hCount
  cases chunkRound_cases h with
  | size eol size hState hEol hSize hSome hSmall =>
    have hFrom := (findFrom_le crlf data s.pos eol (by decide) hEol).1
    have hEnd : eol + 2 ≤ origin + count := hPos
    have hFound := findFrom_slice crlf data s.pos eol origin count (by decide) hEol hOrigin hEnd
    have hLine := line_slice data origin count hOrigin hFrom (by omega)
    simp only [chunkRound, moved, hState, chunkSizeRound, hFound, chunkSizeLine, hLine, hSize, if_neg hSome,
      if_neg hSmall]
    rw [show eol - origin + 2 = eol + 2 - origin by omega]
  | whole hState hAvail =>
    have hInside : s.pos + s.parser.chunkRemaining ≤ origin + count := hPos
    simp only [chunkRound, moved, hState, chunkDataRound]
    rw [if_neg (by rw [hLength]; omega), slice_slice data origin count s.pos _ hOrigin hInside,
      show s.pos - origin + s.parser.chunkRemaining = s.pos + s.parser.chunkRemaining - origin by omega]
  | closed hState hInside hCrlf =>
    have hWithin : s.pos + 2 ≤ origin + count := hPos
    have hFits : ¬s.pos - origin + 2 > (slice data origin count).length := by
      rw [hLength]
      omega
    simp only [chunkRound, moved, hState, chunkDataEndRound, hFits, if_false,
      slice_slice data origin count s.pos _ hOrigin hWithin, hCrlf]
    rw [show s.pos - origin + 2 = s.pos + 2 - origin by omega]

theorem chunkLoop_piece (h : Visits data s t) (hState : t.parser.state = .chunkSize) (hOrigin : origin ≤ s.pos)
    (hLength : t.pos ≤ data.length) : chunkLoop (slice data origin (t.pos - origin)) (moved req origin start s) =
      (t.parser, req, some (t.pos - origin)) := by
  induction h using Relation.ReflTransGen.head_induction_on with
  | refl =>
    have hSize : (slice data origin (t.pos - origin)).length = t.pos - origin :=
      slice_length _ _ _ (by omega)
    have hEnd : findFrom crlf (slice data origin (t.pos - origin)) (t.pos - origin) = none := by
      cases hFind : findFrom crlf (slice data origin (t.pos - origin)) (t.pos - origin) with
      | none => rfl
      | some eol =>
        obtain ⟨hLe, hInside⟩ := findFrom_le _ _ _ _ (by decide) hFind
        change eol + 2 ≤ _ at hInside
        omega
    apply chunkLoop_exit
    simp only [chunkRound, moved, hState, chunkSizeRound, hEnd]
  | head hStep hRest ih =>
    have hMono := (chunkRound_inr hStep).2.1
    have hReach := Visits.pos_le hRest
    rw [chunkLoop_round (chunkRound_moved req origin start (t.pos - origin) hStep hOrigin (by omega)
      (by omega))]
    exact ih (hOrigin.trans hMono)

def chunkView (p : HttpParser) : StringView := { backing := .chunkBody, bytes := p.chunkBody }

theorem chunkRound_done {o : Outcome} (h : chunkRound data s = .inl o) (hDone : o.1.state = .complete)
    (hOpen : s.parser.state ≠ .complete) : ∃ eol trailerEnd, s.parser.state = .chunkSize ∧
      findFrom crlf data s.pos = some eol ∧ chunkSizeOf 0 (sizeToken (slice data s.pos (eol - s.pos))) = .ok 0 ∧
      findFrom crlf data (eol + 2) = some trailerEnd ∧
      o = ({ s.parser with chunkRemaining := 0, state := .complete }, s.req.setBody s.parser.chunkView,
        some (trailerEnd + 2)) := by
  cases chunkRound_cases h with
  | rests => exact absurd hDone hOpen
  | refused => cases hDone
  | last eol hState hEol hSize =>
    cases hTrailer : findFrom crlf data (eol + 2) with
    | none =>
      rw [lastChunk, hTrailer] at hDone
      exact absurd hDone hOpen
    | some trailerEnd =>
      refine ⟨eol, trailerEnd, hState, hEol, hSize, hTrailer, ?_⟩
      rw [lastChunk, hTrailer]
      rfl
  | part p hState =>
    rw [hDone] at hState
    cases hState

theorem chunkRound_final {o : Outcome} (h : chunkRound data s = .inl o) (hDone : o.1.state = .complete)
    (hOpen : s.parser.state ≠ .complete) (hOrigin : origin ≤ s.pos) :
    ∃ n, origin ≤ n ∧ o = (o.1, s.req.setBody o.1.chunkView, some n) ∧
      chunkRound (data.drop origin) (moved req origin start s) =
        .inl (o.1, req.setBody o.1.chunkView, some (n - origin)) := by
  have hDrop : data.drop origin = slice data origin (data.length - origin) :=
    (List.take_of_length_le (by rw [List.length_drop])).symm
  obtain ⟨eol, trailerEnd, hState, hEol, hSize, hTrailer, hOut⟩ := chunkRound_done h hDone hOpen
  obtain ⟨hFrom, hInside⟩ := findFrom_le crlf data s.pos eol (by decide) hEol
  obtain ⟨hAfter, hEnd⟩ := findFrom_le crlf data (eol + 2) trailerEnd (by decide) hTrailer
  change eol + 2 ≤ data.length at hInside
  change trailerEnd + 2 ≤ data.length at hEnd
  have hFound := findFrom_slice crlf data s.pos eol origin (data.length - origin)
    (by decide) hEol hOrigin (by change eol + 2 ≤ _; omega)
  have hSecond := findFrom_slice crlf data (eol + 2) trailerEnd origin
    (data.length - origin) (by decide) hTrailer (by omega) (by change trailerEnd + 2 ≤ _; omega)
  have hLine := line_slice data origin (data.length - origin) hOrigin hFrom (by omega)
  rw [show eol + 2 - origin = eol - origin + 2 by omega] at hSecond
  subst hOut
  refine ⟨trailerEnd + 2, by omega, rfl, ?_⟩
  simp only [chunkRound, moved, hState, chunkSizeRound, hDrop, hFound, chunkSizeLine, hLine, hSize, if_true,
    lastChunk, hSecond, chunkView]
  rw [show trailerEnd - origin + 2 = trailerEnd + 2 - origin by omega]

theorem chunkRound_open (h : chunkRound data s = .inr t) : t.parser.state ≠ .complete ∧ t.req = s.req := by
  cases chunkRound_cases h <;> exact ⟨nofun, rfl⟩

theorem Visits.loop_eq (h : Visits data s t) : chunkLoop data s = chunkLoop data t ∧ t.req = s.req := by
  induction h with
  | refl => exact ⟨rfl, rfl⟩
  | tail _ hStep ih =>
    exact ⟨ih.1.trans (chunkLoop_round hStep), (chunkRound_open hStep).2.trans ih.2⟩

theorem chunkLoop_rest (hDone : (chunkLoop data s).1.state = .complete) (hOpen : s.parser.state ≠ .complete)
    (hOrigin : origin ≤ s.pos) (hPos : s.pos ≤ data.length) : ∃ n, origin ≤ n ∧ chunkLoop data s =
        ((chunkLoop data s).1, s.req.setBody (chunkLoop data s).1.chunkView, some n) ∧
      chunkLoop (data.drop origin) (moved req origin start s) =
        ((chunkLoop data s).1, req.setBody (chunkLoop data s).1.chunkView, some (n - origin)) := by
  have hRun := chunkLoop_run data s
  generalize 2 * data.length + 2 = rounds at hRun
  induction rounds generalizing s with
  | zero => cases hRun
  | succ rounds ih =>
    cases hRound : chunkRound data s with
    | inl o =>
      have hLoop := chunkLoop_exit hRound
      rw [hLoop] at hDone ⊢
      obtain ⟨n, hn, hOut, hMoved⟩ := chunkRound_final req origin start hRound hDone hOpen hOrigin
      exact ⟨n, hn, hOut, chunkLoop_exit hMoved⟩
    | inr t =>
      have hLoop := chunkLoop_round hRound
      obtain ⟨hStill, hReq⟩ := chunkRound_open hRound
      obtain ⟨hMax, hMono, -⟩ := chunkRound_inr hRound
      rw [run_round _ hRound] at hRun
      rw [hLoop] at hDone hRun ⊢
      have hInside : t.pos ≤ data.length := by omega
      obtain ⟨n, hn, hOut, hRest⟩ := ih hDone hStill (hOrigin.trans hMono) hInside hRun
      refine ⟨n, hn, hReq ▸ hOut, ?_⟩
      have hDrop : data.drop origin = slice data origin (data.length - origin) :=
        (List.take_of_length_le (by rw [List.length_drop])).symm
      rw [hDrop, chunkLoop_round (chunkRound_moved req origin start (data.length - origin) hRound
        hOrigin (by omega) (by omega)), ← hDrop]
      exact hRest

end QbuemStack.Http.HttpParser
