import QbuemStack.Ws.Moves
import Mathlib.Data.List.Nodup

/-! The heartbeat. The connection remembers one timer and one flag, whatever the number of Pings
that wait for an answer. -/
namespace QbuemStack.Ws

open Octets WsConnection

def pongTimers (c : WsConnection) : List Timer := c.timers.filter fun t => t.kind = .pong

/-- The connection has not been given up for a missing Pong, and waits for one Pong at most. -/
structure Healthy (c : WsConnection) : Prop where
  alive : Event.error .timedOut ∉ c.log
  single : (pongTimers c).length ≤ 1

/-- Every Ping has been answered in time, or its answer is not due yet. -/
def Answering (cfg : WsServerConfig) (c : WsConnection) : Prop :=
  c.closing = true ∨
    c.pongs.length ≤ c.pings.length ∧ (∀ p ∈ c.pings.zip c.pongs, p.2 < p.1 + cfg.pongTimeoutMs) ∧
      ∀ ping ∈ c.pings.drop c.pongs.length, c.now < ping + cfg.pongTimeoutMs

instance (cfg : WsServerConfig) (c : WsConnection) : Decidable (Answering cfg c) :=
  inferInstanceAs (Decidable (_ ∨ _))

variable {cfg : WsServerConfig} {writing : Prop}

structure Numbered (c : WsConnection) : Prop where
  below : ∀ t ∈ c.timers, t.id < c.nextTimerId
  nodup : (c.timers.map Timer.id).Nodup

variable {c t : WsConnection} {timers : List Timer} {app : App} {depth : Nat} {input : Input}

theorem Numbered.unregister (h : Numbered c) (id : Option Nat) :
    (∀ t ∈ unregisterTimer id c.timers, t.id < c.nextTimerId) ∧ ((unregisterTimer id c.timers).map Timer.id).Nodup :=
  ⟨fun t ht => h.below t (List.mem_of_mem_filter ht), h.nodup.sublist (List.filter_sublist.map _)⟩

theorem Numbered.register (h : Numbered c) (kind : TimerKind) (timeoutMs : Nat) :
    Numbered (c.registerTimer kind timeoutMs) := by
  refine ⟨?_, ?_⟩
  · exact List.forall_mem_append.mpr ⟨fun t ht => Nat.lt_succ_of_lt (h.below t ht),
      List.forall_mem_singleton.mpr (Nat.lt_succ_self _)⟩
  · show ((c.timers ++ [_]).map Timer.id).Nodup
    rw [List.map_append, List.nodup_append]
    refine ⟨h.nodup, List.nodup_singleton _, ?_⟩
    rintro a ha b hb rfl
    obtain ⟨t, ht, hId⟩ := List.mem_map.mp ha
    have hNew : a = c.nextTimerId := by simpa using hb
    exact absurd (h.below t ht) (by omega)

theorem numbered_move (hMove : Move cfg c t) (h : Numbered c) : Numbered t := by
  cases hMove with
  | elapse => exact ⟨h.below, h.nodup⟩
  | armPing =>
    have hNew := h.register .ping cfg.pingIntervalMs
    exact ⟨hNew.below, hNew.nodup⟩
  | awaitPong =>
    have hNew := h.register .pong cfg.pongTimeoutMs
    exact ⟨hNew.below, hNew.nodup⟩
  | tick t | expire t | timeOut t => exact ⟨(h.unregister _).1, (h.unregister _).2⟩
  | traffic hTraffic =>
    cases hTraffic with
    | message | received | write | block | drained => exact ⟨h.below, h.nodup⟩
    | pong => exact ⟨(h.unregister _).1, (h.unregister _).2⟩
    | act hAct =>
      cases hAct with
      | send | close | abandon | error => exact ⟨h.below, h.nodup⟩
      | finish code hLive =>
        have hPing : Numbered { c with timers := unregisterTimer c.pingTimerId c.timers } :=
          ⟨(h.unregister _).1, (h.unregister _).2⟩
        rw [finishClose, if_neg (by simp [hLive])]
        exact ⟨(hPing.unregister _).1, (hPing.unregister _).2⟩

theorem numbered_served (response : Bytes) (writes : List WriteResult) : Numbered (served cfg response writes) :=
  (moves_served cfg response writes).invariant (fun _ _ => numbered_move)
    ⟨by simp [upgraded], by simp [upgraded]⟩

theorem pongTimers_unregister_ping (h : Numbered c) {t : Timer} (hTimer : t ∈ c.timers) (hKind : t.kind = .ping) :
    (unregisterTimer (some t.id) c.timers).filter (fun u => u.kind = .pong) = pongTimers c := by
  unfold unregisterTimer pongTimers
  rw [List.filter_filter]
  apply List.filter_congr
  intro u hu
  have hOther : u.kind = .pong → u.id ≠ t.id := by
    intro hPong hSame
    rw [List.inj_on_of_nodup_map h.nodup hu hTimer hSame, hKind] at hPong
    cases hPong
  by_cases hPong : u.kind = .pong
  · simp [hPong, hOther hPong]
  · simp [hPong]

theorem unregister_single {t : Timer} (hSingle : timers.filter (fun u => u.kind = .pong) = [t]) :
    (unregisterTimer (some t.id) timers).filter (fun u => u.kind = .pong) = [] := by
  unfold unregisterTimer
  rw [List.filter_comm, hSingle]
  simp

theorem unregister_none (id : Option Nat) (hNone : timers.filter (fun u => u.kind = .pong) = []) :
    (unregisterTimer id timers).filter (fun u => u.kind = .pong) = [] := by
  unfold unregisterTimer
  rw [List.filter_comm, hNone]
  rfl

structure Beating (cfg : WsServerConfig) (c : WsConnection) : Prop where
  numbered : Numbered c
  alive : Event.error .timedOut ∉ c.log
  outstanding : pongTimers c = [] ∨ ∃ t, pongTimers c = [t] ∧ c.pongTimerId = some t.id ∧
    (c.closing = false → ∃ last, c.pings.getLast? = some last ∧ t.deadline = last + cfg.pongTimeoutMs ∧
      c.pings.length = c.pongs.length + 1)
  settled : pongTimers c = [] → c.closing = false → c.pings.length ≤ c.pongs.length

theorem Beating.healthy (h : Beating cfg c) : Healthy c := by
  refine ⟨h.alive, ?_⟩
  rcases h.outstanding with hNone | ⟨t, hOne, -⟩
  · simp [hNone]
  · simp [hOne]

theorem Beating.unregistered (h : Beating cfg c) :
    (unregisterTimer c.pongTimerId c.timers).filter (fun u => u.kind = .pong) = [] := by
  rcases h.outstanding with hNone | ⟨t, hOne, hId, -⟩
  · exact unregister_none _ hNone
  · rw [hId]
    exact unregister_single hOne

theorem beating_act (hAct : Act cfg c t) (h : Beating cfg c) : Beating cfg t := by
  cases hAct with
  | send => exact { h with numbered := { h.numbered with } }
  | close | abandon =>
    refine { h with numbered := { h.numbered with }, outstanding := ?_, settled := fun _ => nofun }
    exact h.outstanding.imp_right fun ⟨timer, hOne, hTimer, _⟩ => ⟨timer, hOne, hTimer, nofun⟩
  | error cause writes hLive hCause =>
    refine { h with numbered := { h.numbered with }, alive := fun hIn => ?_ }
    rcases List.mem_append.mp hIn with hIn | hIn
    · exact h.alive hIn
    · exact absurd (Event.error.inj (List.mem_singleton.mp hIn)).symm hCause
  | finish code hLive =>
    have hFinished := @numbered_move cfg _ _ (Act.finish code hLive).move h.numbered
    rw [finishClose, if_neg (by simp [hLive])] at hFinished ⊢
    refine ⟨hFinished, ?_, .inl ?_, fun _ hFalse => Bool.noConfusion hFalse⟩
    · intro hIn
      rcases List.mem_append.mp hIn with hIn | hIn
      · exact h.alive hIn
      · cases List.mem_singleton.mp hIn
    · show (unregisterTimer c.pongTimerId (unregisterTimer c.pingTimerId c.timers)).filter _ = []
      have hSwap : unregisterTimer c.pongTimerId (unregisterTimer c.pingTimerId c.timers) =
          unregisterTimer c.pingTimerId (unregisterTimer c.pongTimerId c.timers) := List.filter_comm ..
      rw [hSwap]
      exact unregister_none _ h.unregistered

theorem beating_traffic (hTraffic : Traffic cfg writing c t) (h : Beating cfg c) : Beating cfg t := by
  cases hTraffic with
  | act hAct => exact beating_act hAct h
  | received | write | block | drained => exact { h with numbered := { h.numbered with } }
  | message isText data =>
    refine { h with numbered := { h.numbered with }, alive := fun hIn => ?_ }
    rcases List.mem_append.mp hIn with hIn | hIn
    · exact h.alive hIn
    · cases List.mem_singleton.mp hIn
  | pong hLive hOpen =>
    refine ⟨@numbered_move cfg _ _ (.traffic (.pong hLive hOpen : Traffic cfg True c _)) h.numbered, h.alive,
      .inl h.unregistered, fun _ _ => ?_⟩
    show c.pings.length ≤ (c.pongs ++ [c.now]).length
    rw [List.length_append, List.length_singleton]
    rcases h.outstanding with hNone | ⟨t, hOne, hId, hDeadline⟩
    · exact (h.settled hNone hOpen).trans (Nat.le_add_right _ _)
    · obtain ⟨last, -, -, hPings⟩ := hDeadline hOpen
      exact hPings.le

theorem acts_timers (h : Acts cfg c t) :
    t.pings = c.pings ∧ t.pongs = c.pongs ∧ t.now = c.now ∧ (t.finished = false → t.timers = c.timers) := by
  induction h with
  | refl => exact ⟨rfl, rfl, rfl, fun _ => rfl⟩
  | @tail d e hActs hAct ih =>
    obtain ⟨hPings, hPongs, hNow, hTimers⟩ := ih
    cases hAct with
    | send | close | abandon | error => exact ⟨hPings, hPongs, hNow, hTimers⟩
    | finish code hLive =>
      rw [finishClose, if_neg (by simp [hLive])]
      exact ⟨hPings, hPongs, hNow, fun hFalse => Bool.noConfusion hFalse⟩

theorem traffics_pings (h : Traffics cfg writing c t) : t.pings = c.pings := by
  induction h with
  | refl => rfl
  | tail hTraffics hTraffic ih =>
    cases hTraffic with
    | act hAct => exact (acts_timers (.single hAct)).1.trans ih
    | message | received | pong | write | block | drained => exact ih

theorem pongTimers_armPing (c : WsConnection) : pongTimers (c.armPing cfg) = pongTimers c := by
  unfold armPing
  split_ifs
  · rfl
  · rfl
  · show (c.timers ++ [_]).filter _ = _
    rw [List.filter_append]
    exact List.append_nil _

theorem armPing_pings (c : WsConnection) : (c.armPing cfg).pings = c.pings := by
  unfold armPing
  split_ifs <;> rfl

inductive FireOutcome (cfg : WsServerConfig) (c : WsConnection) : WsConnection → Prop
  | idle : FireOutcome cfg c c
  | tick {t : WsConnection} (timer : Timer) (hTimer : timer ∈ c.timers) (hKind : timer.kind = .ping)
      (hTick : TickOutcome cfg
        { c with timers := unregisterTimer (some timer.id) c.timers, pingTimerId := none } t) :
      FireOutcome cfg c t
  | expired {t : WsConnection} (timer : Timer) (hTimer : timer ∈ c.timers) (hKind : timer.kind = .pong)
      (hDue : timer.deadline ≤ c.now) (hPings : t.pings = c.pings)
      (hClosing : c.closing = true →
        t = { c with timers := unregisterTimer (some timer.id) c.timers, pongTimerId := none }) :
      FireOutcome cfg c t

theorem fire_cases (app : App) (depth id : Nat) (c : WsConnection) : FireOutcome cfg c (c.fire cfg app depth id) := by
  unfold fire
  cases hFind : c.timers.find? fun t => t.id = id with
  | none => exact .idle
  | some t =>
    have hTimer : t ∈ c.timers := List.mem_of_find?_eq_some hFind
    obtain rfl : t.id = id := by simpa using List.find?_some hFind
    simp only
    split_ifs with hEarly
    · exact .idle
    cases hKind : t.kind with
    | ping =>
      exact .tick t hTimer hKind
        (onPingTick_cases app depth { c with timers := unregisterTimer (some t.id) c.timers })
    | pong =>
      refine .expired t hTimer hKind (Nat.not_lt.mp hEarly) ?_ ?_
      · simp only [onPongTimeout]
        split_ifs
        · exact (acts_timers ((@acts_react cfg app depth _).trans (acts_finish _ _))).1
        · rfl
      · intro hClosing
        simp [onPongTimeout, hClosing]

theorem pongTimers_of_ping (h : Numbered c) (hPing : (c.step cfg app depth input).pings ≠ c.pings) :
    (pongTimers (c.step cfg app depth input)).length = (pongTimers c).length + 1 := by
  rcases @step_cases cfg app depth input c with hTraffics | ⟨ms, rfl⟩ | ⟨id, rfl⟩
  · exact absurd (traffics_pings hTraffics) hPing
  · exact absurd rfl hPing
  · have hFire := @fire_cases cfg app depth id c
    have hStep : c.step cfg app depth (.timer id) = c.fire cfg app depth id := rfl
    rw [hStep] at hPing ⊢
    generalize c.fire cfg app depth id = t at hFire hPing ⊢
    cases hFire with
    | idle => exact absurd rfl hPing
    | expired timer hTimer hKind hDue hPings => exact absurd hPings hPing
    | tick timer hTimer hKind hTick =>
      cases hTick with
      | closed hActs => exact absurd (acts_timers hActs).1 hPing
      | @sent d hActs hOpen hLive =>
        have hTimers : d.timers = unregisterTimer (some timer.id) c.timers :=
          (acts_timers hActs).2.2.2 hLive
        rw [pongTimers_armPing]
        show ((d.timers ++ [_]).filter _).length = _
        rw [List.filter_append, hTimers, pongTimers_unregister_ping h hTimer hKind, List.length_append]
        rfl

theorem Beating.elapse (h : Beating cfg c) (ms : Nat) :
    Beating cfg { c with now := c.now + ms } := { h with numbered := { h.numbered with } }

theorem beating_traffics (h : Traffics cfg writing c t) (hBeating : Beating cfg c) : Beating cfg t := by
  induction h with
  | refl => exact hBeating
  | tail _ hLast ih => exact beating_traffic hLast ih

theorem Beating.armPing (h : Beating cfg c) : Beating cfg (c.armPing cfg) := by
  have hSame := @pongTimers_armPing cfg c
  have hNumbered := (@moves_armPing cfg c).invariant (fun _ _ => numbered_move) h.numbered
  unfold WsConnection.armPing at hSame hNumbered ⊢
  split_ifs at hSame hNumbered ⊢ with hClosed hOff
  · exact h
  · exact h
  · exact ⟨hNumbered, h.alive, hSame ▸ h.outstanding, hSame ▸ h.settled⟩

theorem Beating.awaitPong {d : WsConnection} (h : Beating cfg d) (hLive : d.finished = false)
    (hOpen : d.closing = false) (hNone : pongTimers d = []) (hPongs : d.pongs.length ≤ d.pings.length) :
    Beating cfg { d.registerTimer .pong cfg.pongTimeoutMs with
      awaitingPong := true, pings := d.pings ++ [d.now], pongTimerId := some d.nextTimerId } := by
  have hTimers : (d.registerTimer .pong cfg.pongTimeoutMs).timers.filter (fun t => t.kind = .pong) =
      [⟨d.nextTimerId, .pong, d.now + cfg.pongTimeoutMs⟩] := by
    rw [registerTimer]
    have hBefore : d.timers.filter (fun t => t.kind = .pong) = [] := hNone
    rw [List.filter_append, hBefore]
    rfl
  refine ⟨numbered_move (.awaitPong hLive hOpen) h.numbered, h.alive, .inr ⟨_, hTimers, rfl, fun _ => ?_⟩,
    fun hEmpty => ?_⟩
  · refine ⟨d.now, List.getLast?_concat, rfl, ?_⟩
    show (d.pings ++ [d.now]).length = d.pongs.length + 1
    rw [List.length_append, List.length_singleton, le_antisymm (h.settled hNone hOpen) hPongs]
  · exact absurd (hTimers.symm.trans hEmpty) (List.cons_ne_nil _ _)

theorem Beating.not_due (h : Beating cfg c) (hAnswering : Answering cfg c) {t : Timer} (hTimer : t ∈ c.timers)
    (hKind : t.kind = .pong) (hDue : t.deadline ≤ c.now) : c.closing = true ∧ pongTimers c = [t] := by
  have hPong : t ∈ pongTimers c := List.mem_filter.mpr ⟨hTimer, by simpa using hKind⟩
  rcases h.outstanding with hNone | ⟨timer, hOne, hId, hDeadline⟩
  · rw [hNone] at hPong
    cases hPong
  rw [hOne] at hPong
  obtain rfl := List.mem_singleton.mp hPong
  refine ⟨?_, hOne⟩
  rcases hAnswering with hClosing | ⟨-, -, hWaiting⟩
  · exact hClosing
  by_contra hOpen
  obtain ⟨last, hLast, hTime, hPings⟩ := hDeadline (by simpa using hOpen)
  have hDrop : last ∈ c.pings.drop c.pongs.length := by
    obtain ⟨front, hFront⟩ := List.getLast?_eq_some_iff.mp hLast
    rw [hFront, List.length_append, List.length_singleton, Nat.add_right_cancel_iff] at hPings
    rw [hFront, ← hPings, List.drop_left]
    exact List.mem_singleton_self last
  have := hWaiting last hDrop
  omega

/-- A step that sends a Ping only while none waits for its Pong keeps the beat. -/
theorem beating_step (h : Beating cfg c) (hAnswering : Answering cfg c)
    (hAlone : (c.step cfg app depth input).pings ≠ c.pings → pongTimers c = []) :
    Beating cfg (c.step cfg app depth input) := by
  rcases @step_cases cfg app depth input c with hTraffics | ⟨ms, rfl⟩ | ⟨id, rfl⟩
  · exact beating_traffics hTraffics h
  · exact h.elapse ms
  · have hFire := @fire_cases cfg app depth id c
    have hStep : c.step cfg app depth (.timer id) = c.fire cfg app depth id := rfl
    rw [hStep] at hAlone ⊢
    generalize c.fire cfg app depth id = t at hFire hAlone ⊢
    cases hFire with
    | idle => exact h
    | expired timer hTimer hKind hDue hPings hClosing =>
      obtain ⟨hClosed, hOne⟩ := h.not_due hAnswering hTimer hKind hDue
      rw [hClosing hClosed]
      refine ⟨⟨(h.numbered.unregister _).1, (h.numbered.unregister _).2⟩, h.alive,
        .inl (unregister_single hOne), fun _ hOpen => ?_⟩
      exact absurd (hOpen.symm.trans hClosed) (by decide)
    | tick timer hTimer hKind hTick =>
      have hPongTimers := pongTimers_unregister_ping h.numbered hTimer hKind
      have hTicked : Beating cfg
          { c with timers := unregisterTimer (some timer.id) c.timers, pingTimerId := none } := by
        refine ⟨⟨(h.numbered.unregister _).1, (h.numbered.unregister _).2⟩, h.alive, ?_,
          fun hNone => h.settled (hPongTimers.symm.trans hNone)⟩
        rcases h.outstanding with hNone | ⟨t, hOne, hRest⟩
        · exact .inl (hPongTimers.trans hNone)
        · exact .inr ⟨t, hPongTimers.trans hOne, hRest⟩
      cases hTick with
      | closed hActs =>
        have hActed : Traffics cfg True _ t := hActs.traffics
        exact beating_traffics hActed hTicked
      | @sent d hActs hOpen hLive hStillOpen =>
        have hActed : Traffics cfg True _ d := hActs.traffics
        obtain ⟨hPings, hPongs, hNow, hTimers⟩ := acts_timers hActs
        have hNone : pongTimers d = [] := by
          rw [pongTimers, hTimers hLive, hPongTimers]
          apply hAlone
          rw [armPing_pings]
          show d.pings ++ [d.now] ≠ c.pings
          rw [hPings]
          exact fun hSame => absurd (congrArg List.length hSame) (by simp)
        have hAnswered : d.pongs.length ≤ d.pings.length := by
          rw [hPings, hPongs]
          rcases hAnswering with hClosing | ⟨hFewer, -⟩
          · exact absurd (hOpen.symm.trans hClosing) (by decide)
          · exact hFewer
        exact ((beating_traffics hActed hTicked).awaitPong hLive hStillOpen hNone hAnswered).armPing

theorem beating_served (response : Bytes) (writes : List WriteResult) : Beating cfg (served cfg response writes) := by
  have hStart : Beating cfg (upgraded response writes) :=
    ⟨⟨by simp [upgraded], by simp [upgraded]⟩, by simp [upgraded], .inl rfl, fun _ _ => le_rfl⟩
  exact hStart.armPing

/-- With a peer that answers each Ping in time, the connection stays healthy exactly when no Ping is
sent while the timer of an earlier one runs. -/
theorem heartbeat_iff (cfg : WsServerConfig) (app : App) (depth : Nat) (response : Bytes)
    (writes : List WriteResult) (inputs : List Input)
    (hAnswers : ∀ past ∈ inputs.tails, Answering cfg ((served cfg response writes).after cfg app depth past)) :
    (∀ past ∈ inputs.tails, Healthy ((served cfg response writes).after cfg app depth past)) ↔
      ∀ t ∈ steps cfg app depth (served cfg response writes) inputs,
        (t.before.step cfg app depth t.input).pings ≠ t.before.pings → pongTimers t.before = [] := by
  constructor
  · intro hHealthy
    induction inputs with
    | nil => exact fun t ht => absurd ht List.not_mem_nil
    | cons input past ih =>
      have hTails : ∀ earlier ∈ past.tails, earlier ∈ (input :: past).tails := by
        intro earlier hEarlier
        rw [List.mem_tails] at hEarlier ⊢
        exact hEarlier.trans (List.suffix_cons _ _)
      intro t ht
      rcases List.mem_cons.mp ht with rfl | ht
      · intro hPing
        have hNumbered := (@moves_after cfg app depth _ past).invariant (fun _ _ => numbered_move)
          (@numbered_served cfg response writes)
        have hAdded := pongTimers_of_ping hNumbered hPing
        have hSingle := (hHealthy (input :: past) ((List.mem_tails _ _).mpr (List.suffix_refl _))).single
        have hNoRoom : (pongTimers ((served cfg response writes).after cfg app depth past)).length + 1 ≤ 1 :=
          hAdded.symm.le.trans hSingle
        exact List.length_eq_zero_iff.mp (Nat.le_zero.mp (Nat.le_of_succ_le_succ hNoRoom))
      · exact ih (fun earlier h => hAnswers earlier (hTails earlier h))
          (fun earlier h => hHealthy earlier (hTails earlier h)) t ht
  · intro hAlone past hPast
    suffices hBeating : Beating cfg ((served cfg response writes).after cfg app depth past) from
      hBeating.healthy
    rw [List.mem_tails] at hPast
    induction past with
    | nil => exact beating_served response writes
    | cons input earlier ih =>
      have hEarlier : earlier <:+ inputs := (List.suffix_cons _ _).trans hPast
      refine beating_step (ih hEarlier) (hAnswers earlier ((List.mem_tails _ _).mpr hEarlier)) ?_
      exact hAlone ⟨_, input⟩ (mem_steps_of_suffix app depth hPast)

def pongBytes : Bytes := [0x8A, 0x80, 0, 0, 0, 0]

def steady : WsServerConfig := { pingIntervalMs := 30, pongTimeoutMs := 10 }

def steadyInputs : List Input :=
  [.elapse 20, .readable (.data pongBytes), .elapse 5, .timer 0, .elapse 30, .writable]

theorem heartbeat_steady :
    Healthy ((served steady sampleResponse [.sent 129, .sent 2]).after steady {} 0 steadyInputs) := by
  refine (heartbeat_iff steady {} 0 sampleResponse [.sent 129, .sent 2] steadyInputs ?_).mpr ?_ steadyInputs ?_
  · decide +kernel
  · decide +kernel
  · exact (List.mem_tails _ _).mpr (List.suffix_refl _)

def hasty : WsServerConfig := { pingIntervalMs := 10, pongTimeoutMs := 35 }

def hastyInputs : List Input :=
  [.timer 1, .elapse 5, .timer 6, .elapse 1, .readable (.data pongBytes), .elapse 9, .timer 4, .elapse 10,
    .timer 2, .elapse 10, .timer 0, .elapse 10, .writable]

def overtaken (past : List Input) : WsConnection :=
  (served hasty sampleResponse [.sent 129, .sent 2, .sent 2, .sent 2, .sent 2]).after hasty {} 0 past

/-- Every Ping was answered, or had time left, up to the expiry of the first Ping's timer at 45 ms,
which closes the connection. -/
theorem overtaken_unhealthy : (∀ past ∈ hastyInputs.tail.tails, Answering hasty (overtaken past)) ∧
      (overtaken hastyInputs.tail).pings = [10, 20, 30, 40] ∧ (overtaken hastyInputs.tail).pongs = [39] ∧
      (pongTimers (overtaken hastyInputs.tail)).length = 3 ∧ Event.error .timedOut ∈ (overtaken hastyInputs).log ∧
      Event.closed WsCloseCode.goingAway ∈ (overtaken hastyInputs).log := by
  decide +kernel

end QbuemStack.Ws
