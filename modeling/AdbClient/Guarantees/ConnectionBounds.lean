import AdbClient.Guarantees.CallReturns

/-!
# What any interleaving can do at most

`CallConnection` says when a call has one connection. This module asks for
nothing: calls may overlap connections of earlier ones, and sockets may fail. Each
call still makes two starts, each connection still sends once, and what it sends is
`m_command` of a call that has begun, its number with it.
-/
namespace AdbClient.Guarantees.ConnectionBounds
open Source Support.Transition CommandObject CallReturns

def isOpened : Mark → Bool
  | .opened _ => true
  | _ => false

def isWrote : Mark → Bool
  | .wrote _ _ => true
  | _ => false

/-- The calls in the order they begin; the first has the number 1. -/
def begins (_ : CommandObject) : Action → List WaitingCall
  | .setCommand c => [c]
  | _ => []

/-- A connection that has still to report that it is established. -/
def unreported : Option ChannelStatus → Nat
  | some .connecting => 1
  | _ => 0

/-- The invariant: starts not made yet and connections not reported yet are
provided for, and `current` is the last of the calls begun. -/
structure Bounded (begun : List WaitingCall) (s : CommandObject) : Prop where
  calls : s.calls = begun.length
  current : s.current = begun.getLast?
  opened : s.history.countP isOpened + s.queued + startsToMake s.phase ≤ 2 * s.calls
  wrote : s.history.countP isWrote + unreported s.channel ≤ s.history.countP isOpened
  closing : s.duty = .closing → s.channel ≠ some .connected
  own : ∀ k bytes, .wrote k bytes ∈ s.history →
    0 < k ∧ ∃ c, begun[k - 1]? = some c ∧ bytes = frame c.call.operation.command

section Step
variable {s : CommandObject} {begun : List WaitingCall}

theorem bounded_fresh (h : s.Fresh) : Bounded [] s := by
  obtain ⟨hcalls, hcurrent, hphase, hchannel, hqueued, hduty, hhistory⟩ := h
  refine ⟨hcalls, hcurrent, ?_, ?_, ?_, ?_⟩
  · simp [hhistory, hqueued, hphase, hcalls, startsToMake]
  · have hnot : s.channel ≠ some .connecting := fun hc => hchannel (.inl hc)
    rw [hhistory]
    unfold unreported
    split
    next hc => exact absurd hc hnot
    next => exact Nat.le_refl 0
  · intro hclosing
    rw [hduty] at hclosing
    cases hclosing
  · intro k bytes hmem
    rw [hhistory] at hmem
    cases hmem

/-- A start opens one connection at most, which has then to be reported. -/
theorem connectTo_counts (s : CommandObject) (created : Bool) :
    (s.connectTo created).history.countP isOpened ≤ s.history.countP isOpened + 1 ∧
      (s.connectTo created).history.countP isWrote = s.history.countP isWrote ∧
      s.history.countP isOpened + unreported (s.connectTo created).channel ≤
        (s.connectTo created).history.countP isOpened + unreported s.channel := by
  by_cases hopens : Opens created s.channel
  · rw [connectTo_opens hopens]
    simp [isOpened, isWrote, unreported]
  · rw [connectTo_not_opens hopens]
    exact ⟨Nat.le_succ _, rfl, Nat.le_refl _⟩

theorem mem_connectTo {created : Bool} {k : Nat} {bytes : Bytes} :
    .wrote k bytes ∈ (s.connectTo created).history ↔ .wrote k bytes ∈ s.history := by
  simp only [connectTo, List.mem_append, or_iff_left_iff_imp]
  intro hmem
  split at hmem
  · cases List.mem_singleton.mp hmem
  · cases hmem

theorem bounded_connectTo (h : Bounded begun s) (created : Bool) (queued : Nat) (phase : Phase)
    (hstart : queued + startsToMake phase + 1 ≤ s.queued + startsToMake s.phase) :
    Bounded begun { s.connectTo created with queued := queued, phase := phase } := by
  obtain ⟨hopened, hwrote, hreport⟩ := connectTo_counts s created
  refine ⟨h.calls, h.current, ?_, ?_, ?_, fun k bytes hmem => h.own k bytes (mem_connectTo.mp hmem)⟩
  · have hle := h.opened
    have hcalls : (s.connectTo created).calls = s.calls := rfl
    dsimp only
    omega
  · have hle := h.wrote
    dsimp only
    omega
  · intro hclosing
    have hnot := h.closing hclosing
    dsimp only [connectTo]
    rw [startConnect_eq]
    split
    · simp
    · exact hnot

/-- The connection callback of a connection that has just reported writes once. -/
theorem bounded_onConnection_connected (h : Bounded begun s)
    (hwrote : s.history.countP isWrote + 1 ≤ s.history.countP isOpened)
    (hconnected : s.channel = some .connected) : Bounded begun s.onConnection := by
  cases hc : s.current with
  | none =>
    rw [onConnection_none hc]
    exact ⟨h.calls, h.current, h.opened, h.wrote, nofun, h.own⟩
  | some c =>
    have hcalls := h.calls
    have hlast := h.current
    rw [hc] at hlast
    rw [onConnection_connected hc (by rw [hconnected]; rfl)]
    refine ⟨h.calls, h.current, ?_, ?_, nofun, ?_⟩
    · simpa [isOpened] using h.opened
    · simpa [isOpened, isWrote, hconnected, unreported] using hwrote
    · intro k bytes hmem
      rcases List.mem_append.mp hmem with hmem | hmem
      · exact h.own k bytes hmem
      · -- the call the callback was set by is the last one begun
        cases List.mem_singleton.mp hmem
        have hpos : 0 < begun.length := by
          apply List.length_pos_iff.mpr
          intro hnone
          rw [hnone] at hlast
          cases hlast
        refine ⟨by omega, c, ?_, rfl⟩
        rw [hcalls, hlast, List.getLast?_eq_getElem?]

theorem bounded_onConnection_closed (h : Bounded begun s) (hne : s.channel ≠ some .connected) :
    Bounded begun s.onConnection := by
  have hdisconnected : isConnected s.channel = false := by
    unfold isConnected
    split
    next hc => exact absurd hc hne
    next => rfl
  cases hc : s.current with
  | none =>
    rw [onConnection_none hc]
    exact ⟨h.calls, h.current, h.opened, h.wrote, nofun, h.own⟩
  | some c =>
    rw [onConnection_disconnected hc hdisconnected]
    exact ⟨h.calls, h.current, h.opened, h.wrote, nofun, h.own⟩

theorem bounded_setCommand (h : Bounded begun s) (hidle : s.phase = .idle) (c : WaitingCall) :
    Bounded (begun ++ [c]) (s.next (.setCommand c)) := by
  have hopened := h.opened
  rw [hidle] at hopened
  refine ⟨?_, ?_, ?_, h.wrote, h.closing, ?_⟩
  · simp [next, h.calls]
  · simp [next]
  · simp only [next, startsToMake] at hopened ⊢
    omega
  · intro k bytes hmem
    obtain ⟨hk, d, hd, hbytes⟩ := h.own k bytes hmem
    refine ⟨hk, d, ?_, hbytes⟩
    rw [List.getElem?_append_left (List.getElem?_eq_some_iff.mp hd).1, hd]

/-- A step that neither begins a call nor has to do with connections. -/
theorem bounded_of_frame (h : Bounded begun s) {t : CommandObject} (hcalls : t.calls = s.calls)
    (hcurrent : t.current = s.current) (hchannel : t.channel = s.channel)
    (hduty : t.duty = .closing → s.duty = .closing)
    (hstarts : t.queued + startsToMake t.phase ≤ s.queued + startsToMake s.phase)
    (hhistory : t.history = s.history ∨ ∃ e, t.history = s.history ++ [e] ∧ isOpened e = false ∧
      ∀ k bytes, e ≠ .wrote k bytes) : Bounded begun t := by
  have hopened : t.history.countP isOpened = s.history.countP isOpened := by
    rcases hhistory with heq | ⟨e, heq, he, -⟩
    · rw [heq]
    · simp [heq, he]
  have hwrote : t.history.countP isWrote = s.history.countP isWrote := by
    rcases hhistory with heq | ⟨e, heq, -, he⟩
    · rw [heq]
    · cases e with
      | wrote k bytes => exact absurd rfl (he k bytes)
      | opened k | dispatched k bytes | returned k => simp [heq, isWrote]
  refine ⟨hcalls.trans h.calls, hcurrent.trans h.current, ?_, ?_, ?_, ?_⟩
  · have hle := h.opened
    rw [hopened, hcalls]
    omega
  · rw [hopened, hwrote, hchannel]
    exact h.wrote
  · intro hclosing
    rw [hchannel]
    exact h.closing (hduty hclosing)
  · intro k bytes hmem
    rcases hhistory with heq | ⟨e, heq, -, he⟩
    · exact h.own k bytes (heq ▸ hmem)
    · rw [heq] at hmem
      rcases List.mem_append.mp hmem with hmem | hmem
      · exact h.own k bytes hmem
      · exact absurd (List.mem_singleton.mp hmem).symm (he k bytes)

/-- A step that begins no call. -/
theorem bounded_rest {a : Action} (henabled : s.Enabled a) (hcall : ∀ c, a ≠ .setCommand c)
    (h : Bounded begun s) : Bounded begun (s.next a) := by
  have hwrote := h.wrote
  cases a with
  | setCommand c => exact absurd rfl (hcall c)
  | startConnect created =>
    have hphase : s.phase = .cleared := henabled
    have hstart : s.queued + startsToMake .started + 1 ≤ s.queued + startsToMake s.phase := by
      simp [hphase, startsToMake]
    exact bounded_connectTo h created s.queued .started hstart
  | runQueued created =>
    have hqueued : 0 < s.queued := henabled.2
    exact bounded_connectTo h created (s.queued - 1) s.phase (by omega)
  | connect =>
    obtain ⟨hfree, hconnecting⟩ := henabled
    rw [hconnecting] at hwrote
    rw [next_connect]
    refine bounded_onConnection_connected ?_ hwrote rfl
    refine ⟨h.calls, h.current, h.opened, ?_, ?_, h.own⟩
    · simp only [unreported] at hwrote ⊢
      omega
    · intro hclosing
      rw [show s.duty = .closing from hclosing] at hfree
      cases hfree
  | closeCallback => exact bounded_onConnection_closed h (h.closing henabled)
  | message bytes =>
    rw [next_message, onMessage_eq]
    refine bounded_of_frame h rfl rfl rfl id (Nat.le_refl _) ?_
    dsimp only
    split
    · exact .inr ⟨_, rfl, rfl, by simp⟩
    · exact .inl (List.append_nil _)
  | close =>
    refine ⟨h.calls, h.current, h.opened, ?_, by simp [next], h.own⟩
    simp only [next, unreported]
    omega
  | clearFinished =>
    have hphase : s.phase = .armed := henabled
    exact bounded_of_frame h rfl rfl rfl id (by simp [next, hphase, startsToMake]) (.inl rfl)
  | start =>
    have hphase : s.phase = .started := henabled
    exact bounded_of_frame h rfl rfl rfl id (by simp [next, hphase, startsToMake]) (.inl rfl)
  | test =>
    have hphase : s.phase = .testing := henabled
    refine bounded_of_frame h rfl rfl rfl id ?_ (.inl rfl)
    simp only [next, hphase]
    split <;> simp [startsToMake]
  | wakeSpuriously =>
    exact bounded_of_frame h rfl rfl rfl id (by simp [next, startsToMake]) (.inl rfl)
  | leave =>
    exact bounded_of_frame h rfl rfl rfl id (by simp [next, startsToMake])
      (.inr ⟨_, rfl, rfl, by simp⟩)
  | notifyAll =>
    refine bounded_of_frame h rfl rfl rfl (by simp [next]) ?_ (.inl rfl)
    simp only [next]
    split
    next hphase => simp [hphase, startsToMake]
    next => exact Nat.le_refl _

theorem bounded_next {a : Action} (henabled : s.Enabled a) (h : Bounded begun s) :
    Bounded (begun ++ begins s a) (s.next a) := by
  by_cases hcall : ∃ c, a = .setCommand c
  · obtain ⟨c, rfl⟩ := hcall
    exact bounded_setCommand h henabled c
  · have hnone : begins s a = [] := by
      cases a with
      | setCommand c => exact absurd ⟨c, rfl⟩ hcall
      | _ => rfl
    rw [hnone, List.append_nil]
    exact bounded_rest henabled (fun c hc => hcall ⟨c, hc⟩) h

end Step

/-- **Bounds for every interleaving.** Whatever the two threads do and whichever
sockets are created: no more than two connections are opened for each call begun,
no more frames are written than connections were opened, and each frame is that of
the command of the call whose number it carries. -/
theorem unguarded_bounds {s t : CommandObject} {actions : List Action} (hfresh : s.Fresh)
    (hrun : Run system (fun _ _ => True) s actions t) :
    t.calls = (trace system begins s actions).length ∧
      t.history.countP isOpened ≤ 2 * t.calls ∧
      t.history.countP isWrote ≤ t.history.countP isOpened ∧
      ∀ k bytes, .wrote k bytes ∈ t.history → 0 < k ∧
        ∃ c, (trace system begins s actions)[k - 1]? = some c ∧
          bytes = frame c.call.operation.command := by
  have h : Bounded ([] ++ trace system begins s actions) t :=
    hrun.accumulate Bounded (fun _ _ _ henabled _ h => bounded_next henabled h)
      (bounded_fresh hfresh)
  rw [List.nil_append] at h
  have hopened := h.opened
  have hwrote := h.wrote
  exact ⟨h.calls, by omega, by omega, h.own⟩

/-- One call, and its queued start after its first connection. -/
def twoConnections : List Action :=
  WakeUp.untilBlocked ++ [.connect, .close, .closeCallback, .notifyAll, .runQueued true, .connect]

/-- Both bounds are reached. -/
theorem unguarded_bounds_twoConnections :
    ∃ t, Run system (fun _ _ => True) fresh twoConnections t ∧
      t.history.countP isOpened = 2 * t.calls ∧
      t.history.countP isWrote = t.history.countP isOpened ∧
      t.history.countP isOpened ≤ 2 * t.calls := by
  have hrun : Run system (fun _ _ => True) fresh twoConnections _ := .of_check rfl
  exact ⟨_, hrun, by decide, by decide, (unguarded_bounds fresh_fresh hrun).2.1⟩

end AdbClient.Guarantees.ConnectionBounds
