import AdbClient.Guarantees.LoopStart

/-!
# The first call returns, too

With the loop still to be started there are more steps to a call: the thread is
made, both threads set and read the statuses, functors are pushed, posted and
taken. None of them can go on for ever, and none waits for a step that cannot
come: only the calling thread's `hv_delay` has no bound of its own.
-/
namespace AdbClient.Guarantees.FirstCall
open Source Support.Transition WakeUp CallReturns LoopedObject LoopStart

/-- The steps there are only so many of. -/
def counts : LoopedObject.Action → Bool
  | .step a => spends a
  | .delay => false
  | _ => true

def isSpuriousStep : LoopedObject.Action → Bool
  | .step a => isSpurious a
  | _ => false

/-- What is left of the start that is under way, on the calling thread. -/
def startRank : Phase → Starting → Nat
  | .started, .entered => 4
  | .started, .spawning => 3
  | .started, .queueing => 2
  | .started, .posting | .started, .waiting => 1
  | _, _ => 0

/-- And on the thread of the loop. -/
def threadRank : LoopThread → Nat
  | .absent => 5
  | .spawned => 4
  | .started => 3
  | .posting => 2
  | .ready => 1
  | .running | .left => 0

def underWay (s : LoopedObject) : Nat :=
  startRank s.object.phase s.starting + threadRank s.thread + s.loop.customEvents.length

/-- A step of the object outweighs the steps of the loop it makes necessary. -/
def allRemaining (s : LoopedObject) : Nat := 8 * remaining (toObject s) + underWay s

section Step
variable {s : LoopedObject}

theorem startRank_le (phase : Phase) (starting : Starting) : startRank phase starting ≤ 4 := by
  cases phase <;> cases starting <;> decide

/-- The steps the object does not see bring the start forward. -/
theorem underWay_silent {a : LoopedObject.Action} (henabled : s.Enabled a) (h : Wired s)
    (hsilent : shows s a = []) : underWay (s.next a) + (counts a).toNat ≤ underWay s := by
  cases a with
  | step a => cases hsilent
  | push | pushPre => cases hsilent
  | runTaken created => cases hsilent
  | delay => exact Nat.le_refl _
  | isRunning =>
    obtain ⟨hphase, hentered⟩ := henabled
    rcases next_isRunning h hentered with ⟨-, heq⟩ | ⟨-, heq⟩
    · rw [heq]
      simp only [underWay, startRank, hphase, hentered, counts, Bool.toNat_true]
      omega
    · rw [heq]
      simp only [underWay, startRank, hphase, hentered, counts, Bool.toNat_true]
      omega
  | post =>
    have hposting : s.starting = .posting := henabled
    have hphase := h.inside (by simp [hposting])
    simp only [underWay, startRank, hphase, hposting, next, returnFromStart, EventLoop.post,
      counts, Bool.toNat_true]
    omega
  | spawn =>
    have hspawning : s.starting = .spawning := henabled
    have hthread : s.thread = .absent := places_eq h hspawning
    have hphase := h.inside (by simp [hspawning])
    rw [next_spawn h hspawning]
    simp only [underWay, startRank, hphase, hspawning, hthread, threadRank, counts,
      Bool.toNat_true]
    omega
  | proceed =>
    have hwaiting : s.starting = .waiting := henabled.1
    have hphase := h.inside (by simp [hwaiting])
    simp only [underWay, startRank, hphase, hwaiting, next, returnFromStart, counts,
      Bool.toNat_true]
    omega
  | setStarted =>
    have hthread : s.thread = .spawned := henabled
    simp only [underWay, next, hthread, threadRank, counts, Bool.toNat_true]
    omega
  | postPre =>
    have hthread : s.thread = .posting := henabled
    simp only [underWay, next, hthread, threadRank, EventLoop.post, counts, Bool.toNat_true]
    omega
  | run =>
    have hthread : s.thread = .ready := henabled
    rw [next_run h hthread]
    simp only [underWay, hthread, threadRank, counts, Bool.toNat_true]
    omega
  | pop =>
    obtain ⟨f, rest, hqueue, heq⟩ := next_pop h henabled
    rw [heq]
    simp only [underWay, hqueue, List.length_cons, counts, Bool.toNat_true]
    omega

/-- Only a step that counts can make a start necessary. -/
theorem underWay_step {a : Source.Action} (henabled : s.Enabled (.step a)) :
    underWay (s.next (.step a)) ≤ underWay s + 4 * (spends a).toNat ∨
      ∃ c, a = .setCommand c := by
  obtain ⟨-, -, hobject⟩ := henabled
  have hrank := startRank_le (s.object.next a).phase s.starting
  cases a with
  | setCommand c => exact .inr ⟨c, rfl⟩
  | message bytes =>
    have hphase : (s.object.next (.message bytes)).phase = s.object.phase := by
      rw [CommandObject.next_message, onMessage_frame]
    left
    simp only [underWay, next, hphase]
    exact Nat.le_add_right _ _
  | wakeSpuriously =>
    left
    simp only [underWay, next, CommandObject.next, startRank]
    omega
  | clearFinished | startConnect created | start | test | leave | runQueued created | connect
  | close | closeCallback | notifyAll =>
    left
    simp only [underWay, next, spends, Bool.toNat_true]
    omega

/-- The steps the object does see leave it less to do. -/
theorem underWay_shown {a : LoopedObject.Action} (henabled : s.Enabled a) (h : Wired s)
    {b : Source.Action} (hshown : shows s a = [b]) (hguard : WithinCall (toObject s) b) :
    underWay (s.next a) ≤ underWay s + 4 * (spends b).toNat ∧ counts a = spends b ∧
      isSpuriousStep a = isSpurious b := by
  cases a with
  | step a =>
    cases hshown
    rcases underWay_step henabled with hle | ⟨c, rfl⟩
    · exact ⟨hle, rfl, rfl⟩
    · exact hguard.elim
  | push =>
    cases hshown
    have hqueueing : s.starting = .queueing := henabled
    have hphase := h.inside (by simp [hqueueing])
    refine ⟨?_, rfl, rfl⟩
    simp only [underWay, startRank, hphase, hqueueing, next, EventLoop.push, List.length_append,
      List.length_singleton, spends, Bool.toNat_true]
    omega
  | pushPre =>
    cases hshown
    have hthread : s.thread = .started := henabled
    refine ⟨?_, rfl, rfl⟩
    simp only [underWay, next, hthread, threadRank, EventLoop.push, List.length_append,
      List.length_singleton, spends, Bool.toNat_true]
    omega
  | runTaken created =>
    cases hshown
    refine ⟨?_, rfl, rfl⟩
    simp only [underWay, next, CommandObject.connectTo, spends, Bool.toNat_true]
    omega
  | isRunning | post | spawn | delay | proceed | setStarted | postPre | run | pop => cases hshown

theorem allRemaining_next {a : LoopedObject.Action} (henabled : s.Enabled a) (h : Wired s)
    (hguard : Seen WithinCall s a) :
    allRemaining (s.next a) + (counts a).toNat ≤
      allRemaining s + 8 * (isSpuriousStep a).toNat := by
  unfold allRemaining
  rcases shows_cases s a with hsilent | ⟨b, hshown⟩
  · have hle := underWay_silent henabled h hsilent
    rw [toObject_silent henabled h hsilent]
    omega
  · have hwithin : WithinCall (toObject s) b := hguard b (by simp [hshown])
    obtain ⟨hstep, heq⟩ := toObject_shown henabled h hshown
    obtain ⟨hle, hcounts, hspurious⟩ := underWay_shown henabled h hshown hwithin
    have hremaining := remaining_next hstep hwithin
    rw [heq, hcounts, hspurious]
    omega

/-- While the start is under way one of the two threads goes on with it. -/
theorem exists_starting_step (h : Wired s) (hphase : s.object.phase = .started) :
    ∃ a, s.Enabled a ∧ shows s a ⊆ [.start] ∧ counts a = true := by
  have hplaces := h.places
  cases hs : s.starting with
  | entered => exact ⟨.isRunning, ⟨hphase, hs⟩, by simp [shows], rfl⟩
  | queueing => exact ⟨.push, hs, by simp [shows], rfl⟩
  | posting => exact ⟨.post, hs, by simp [shows], rfl⟩
  | spawning => exact ⟨.spawn, hs, by simp [shows], rfl⟩
  | waiting =>
    rw [hs] at hplaces
    cases hthread : s.thread with
    | absent => exact absurd hthread hplaces.1
    | left => exact absurd hthread hplaces.2
    | spawned => exact ⟨.setStarted, hthread, by simp [shows], rfl⟩
    | started => exact ⟨.pushPre, hthread, by simp [shows], rfl⟩
    | posting => exact ⟨.postPre, hthread, by simp [shows], rfl⟩
    | ready => exact ⟨.run, hthread, by simp [shows], rfl⟩
    | running =>
      have hrank : KStatus.running.rank ≤ s.loop.status.rank := by
        rw [loop_status h, hthread]
        decide
      exact ⟨.proceed, ⟨hs, hrank⟩, by simp [shows], rfl⟩

/-- Outside the start a step of the object is one here, when the loop is free for it. -/
theorem exists_outside_step (h : Wired s) (hphase : s.object.phase ≠ .started)
    {a : Source.Action} (henabled : (toObject s).Enabled a)
    (hloop : CommandObject.OnLoop a → s.Dispatching)
    (hqueued : ∀ created, a ≠ .runQueued created) : s.Enabled (.step a) := by
  have hpushed : ¬ Pushed s := fun hpushed => hphase (pushed_started h hpushed)
  rw [toObject_not_pushed hpushed] at henabled
  cases a with
  | start => exact absurd henabled hphase
  | runQueued created => exact absurd rfl (hqueued created)
  | setCommand c | clearFinished | startConnect created | test | wakeSpuriously | leave | connect
  | message bytes | close | closeCallback | notifyAll => exact ⟨trivial, hloop, henabled⟩

/-- A call is blocked only when the loop runs. -/
theorem running_of_blocked (h : Wired s) (hblocked : s.object.phase = .blocked) :
    s.thread = .running := by
  have hentered : s.starting = .entered := by
    by_contra hne
    rw [h.inside hne] at hblocked
    cases hblocked
  rcases places_eq h hentered with habsent | hrunning
  · have hbefore := h.first habsent
    rw [hblocked] at hbefore
    simp [BeforeReturn] at hbefore
  · exact hrunning

/-- While a call is under way one of the two threads has a step that counts. -/
theorem exists_looped_step (h : Wired s) (hw : Wakeable (toObject s))
    (hbegun : s.object.phase ≠ .idle) :
    ∃ a, s.Enabled a ∧ Seen CreatesSockets s a ∧ Seen WithinCall s a ∧ counts a = true := by
  by_cases hphase : s.object.phase = .started
  · obtain ⟨a, henabled, hshows, hcounts⟩ := exists_starting_step h hphase
    refine ⟨a, henabled, ?_, ?_, hcounts⟩
    · intro b hb
      rw [List.mem_singleton.mp (hshows hb)]
      trivial
    · intro b hb
      rw [List.mem_singleton.mp (hshows hb)]
      trivial
  · have hpushed : ¬ Pushed s := fun hpushed => hphase (pushed_started h hpushed)
    have hsame : (toObject s).phase = s.object.phase := by rw [toObject_not_pushed hpushed]
    by_cases hblocked : s.object.phase = .blocked
    · by_cases htaken : s.taken = none
      · obtain ⟨a, hqueued, honloop, henabled, hcreates, hwithin, hspends⟩ :=
          exists_waking_step hw (hsame.trans hblocked)
        have hthread := running_of_blocked h hblocked
        exact ⟨.step a, exists_outside_step h hphase henabled (fun _ => ⟨hthread, htaken⟩) hqueued,
          by simpa [Seen, shows] using hcreates, by simpa [Seen, shows] using hwithin, hspends⟩
      · exact ⟨.runTaken true, htaken, by simp [Seen, shows, CreatesSockets],
          by simp [Seen, shows, WithinCall], rfl⟩
    · obtain ⟨a, hcalling, henabled, hcreates, hwithin, hspends⟩ :=
        exists_calling_step (s := toObject s) (by rwa [hsame]) (by rwa [hsame])
      have hqueued : ∀ created, a ≠ .runQueued created := by
        intro created heq
        subst heq
        exact hcalling trivial
      exact ⟨.step a,
        exists_outside_step h hphase henabled (fun honloop => absurd honloop hcalling) hqueued,
        by simpa [Seen, shows] using hcreates, by simpa [Seen, shows] using hwithin, hspends⟩

/-- The object's invariant is kept, since each step is at most one of the object. -/
theorem wakeable_looped {a : LoopedObject.Action} (henabled : s.Enabled a)
    (hguard : Seen CreatesSockets s a) (h : Wired s) (hw : Wakeable (toObject s)) :
    Wakeable (toObject (s.next a)) := by
  rcases shows_cases s a with hsilent | ⟨b, hshown⟩
  · rwa [toObject_silent henabled h hsilent]
  · obtain ⟨hstep, heq⟩ := toObject_shown henabled h hshown
    rw [heq]
    exact wakeable_next hstep (hguard b (by simp [hshown])) hw

end Step

section Runs
variable {s t u : LoopedObject} {actions more : List LoopedObject.Action}

/-- What both threads keep. -/
def Sound (s : LoopedObject) : Prop := Wired s ∧ Wakeable (toObject s)

theorem sound_next {a : LoopedObject.Action} (henabled : s.Enabled a)
    (hguard : Seen CreatesSockets s a) (h : Sound s) : Sound (s.next a) :=
  ⟨wired_next henabled h.1, wakeable_looped henabled hguard h.1 h.2⟩

theorem sound_run (hfresh : s.Fresh)
    (hrun : Run LoopedObject.system (Seen CreatesSockets) s actions t) : Sound t :=
  hrun.invariant Sound (fun _ _ henabled hguard h => sound_next henabled hguard h)
    ⟨wired_fresh hfresh, wakeable_of_idle (toObject_fresh hfresh).2.2.1⟩

/-- The steps of a call that goes on. -/
def GoesOn (s : LoopedObject) (a : LoopedObject.Action) : Prop :=
  Seen CreatesSockets s a ∧ Seen WithinCall s a

theorem counted_le (ht : Sound t) (hrun : Run LoopedObject.system GoesOn t more u) :
    Sound u ∧ allRemaining u + more.countP counts ≤
      allRemaining t + 8 * more.countP isSpuriousStep := by
  have hstep : ∀ x a, x.Enabled a → GoesOn x a → Sound x → Sound (x.next a) :=
    fun x a henabled hguard h => sound_next henabled hguard.1 h
  refine ⟨hrun.invariant Sound hstep ht, ?_⟩
  have hstrong := hrun.strengthen Sound hstep ht
  refine hstrong.potential allRemaining counts isSpuriousStep 8 ?_
  intro x a henabled hguard
  exact allRemaining_next henabled hguard.2.1 hguard.1.2

/-- **Every call returns, the one that starts the loop included.** Take any state the
two threads reach from a new object while sockets can be created, with a call under
way. However they go on without a new call: the steps other than messages,
`hv_delay`s and spurious wake-ups are bounded, and until the call has returned there
is always another one to take. So some schedule completes the call. -/
theorem first_call_returns (hfresh : s.Fresh)
    (hrun : Run LoopedObject.system (Seen CreatesSockets) s actions t) :
    (∀ more u, Run LoopedObject.system GoesOn t more u →
      more.countP counts ≤ allRemaining t + 8 * more.countP isSpuriousStep ∧
        (u.object.phase ≠ .idle → ∃ a, u.Enabled a ∧ GoesOn u a ∧ counts a = true)) ∧
      ∃ more u, Run LoopedObject.system GoesOn t more u ∧ u.object.phase = .idle ∧
        more.length ≤ allRemaining t ∧ ∀ a ∈ more, counts a = true := by
  have ht := sound_run hfresh hrun
  constructor
  · intro more u hmore
    obtain ⟨hu, hle⟩ := counted_le ht hmore
    refine ⟨by omega, ?_⟩
    intro hbegun
    obtain ⟨a, henabled, hcreates, hwithin, hcounts⟩ := exists_looped_step hu.1 hu.2 hbegun
    exact ⟨a, henabled, ⟨hcreates, hwithin⟩, hcounts⟩
  · refine exists_run_to allRemaining Sound (fun u => u.object.phase = .idle)
      (fun a => counts a = true) ?_ ht
    intro x hx hbegun
    obtain ⟨a, henabled, hcreates, hwithin, hcounts⟩ := exists_looped_step hx.1 hx.2 hbegun
    have hle := allRemaining_next henabled hx.1 hwithin
    have hnot : isSpuriousStep a = false := by
      cases a with
      | step a => cases a <;> first | rfl | cases hcounts
      | _ => rfl
    rw [hcounts, hnot] at hle
    exact ⟨a, henabled, ⟨hcreates, hwithin⟩, hcounts, sound_next henabled hcreates hx,
      Nat.lt_of_succ_le hle⟩

end Runs

/-- From the middle of the start, where nothing is pushed yet. -/
theorem first_call_returns_getState :
    ∃ t, Run LoopedObject.system (Seen CreatesSockets) fresh (firstStart.take 6) t ∧
      t.loop.customEvents = [] ∧
      ∃ more u, Run LoopedObject.system GoesOn t more u ∧ u.object.phase = .idle ∧
        more.length ≤ allRemaining t ∧ ∀ a ∈ more, counts a = true := by
  have hrun : Run LoopedObject.system (Seen CreatesSockets) fresh (firstStart.take 6) _ :=
    .of_check rfl
  exact ⟨_, hrun, rfl, (first_call_returns fresh_fresh hrun).2⟩

end AdbClient.Guarantees.FirstCall
