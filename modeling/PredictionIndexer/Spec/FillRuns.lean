import PredictionIndexer.Spec.KillPrices

/-!
# Runs of fills

The state of an entity and its open episode change together: an episode is open just while the state
is live. So over a run the time in the four states is the time in which the trigger was on, and the
live time is that of the episodes, which do not overlap.
-/

namespace PredictionIndexer.Replay.FillRun

open Fallible

/-! ## Time -/

/-- The time in a state until now, with what is not charged yet. -/
def timeIn (run : FillRun) (state : FillState) (now : Int) : Int :=
  run.fillNs state + match run.state with
    | none => 0
    | some current => if current.state = state then now - current.since else 0

/-- The time of the episodes until now. -/
def episodeTime (run : FillRun) (now : Int) : Int :=
  (run.closed.map fun closed => closed.stop - closed.start).sum + match run.episode with
    | none => 0
    | some episode => now - episode.start

/-- What holds of a run at an instant, behind a commit whose trigger was `on`. -/
structure Settled (run : FillRun) (on : Bool) (now : Int) : Prop where
  state_iff : run.state.isSome = on
  open_iff : run.episode.isSome = true ↔ ∃ current, run.state = some current ∧ current.state = .live
  since : ∀ current, run.state = some current → current.since ≤ now
  started : ∀ episode, run.episode = some episode → episode.start ≤ now
  ordered : run.closed.Pairwise fun a b => a.stop ≤ b.start
  lengths : ∀ closed ∈ run.closed, closed.start < closed.stop ∧ closed.stop ≤ now ∧
    ∀ episode, run.episode = some episode → closed.stop ≤ episode.start

section Time

variable {run : FillRun} {state : FillState} {now later : Int}

theorem timeIn_charge {duration : Int} (hduration : 0 ≤ duration) {charged : FillState} :
    (run.charge charged duration).fillNs state =
      run.fillNs state + if charged = state then duration else 0 := by
  unfold charge
  split_ifs with hle heq heq
  · omega
  · omega
  · subst heq
    simp
  · simp [Function.update_of_ne (Ne.symm heq)]

theorem state_charge {duration : Int} : (run.charge state duration).state = run.state := by
  unfold charge
  split <;> rfl

/-- A change of state moves no time. -/
theorem timeIn_setState {next : Option (FillState × List Nat)}
    (h : ∀ current, run.state = some current → current.since ≤ now) :
    (run.setState now next).timeIn state now = run.timeIn state now := by
  unfold setState timeIn
  cases hstate : run.state with
  | none =>
    cases next with
    | none => simp [hstate]
    | some next => simp
  | some current =>
    have hsince := h current hstate
    have hcharge := @timeIn_charge run state (now - current.since) (by omega) current.state
    cases next with
    | none => simp [hcharge]
    | some next =>
      by_cases hsame : current.state = next.1
      · simp only [if_pos hsame]
      · simp only [if_neg hsame]
        rw [show ({ (run.charge current.state (now - current.since)) with
          state := some ⟨now, next.1, next.2⟩ } : FillRun).fillNs state = _ from hcharge]
        simp

theorem timeIn_later : run.timeIn state later = run.timeIn state now +
    match run.state with
    | none => 0
    | some current => if current.state = state then later - now else 0 := by
  unfold timeIn
  cases run.state with
  | none => simp
  | some current =>
    dsimp only
    split_ifs <;> omega

theorem episodeTime_close {reason : EndReason}
    (h : ∀ episode, run.episode = some episode → episode.start ≤ now) :
    (run.close now reason).episodeTime now = run.episodeTime now := by
  unfold close episodeTime
  cases hepisode : run.episode with
  | none => simp [hepisode]
  | some episode =>
    have hstart := h episode hepisode
    dsimp only
    split_ifs with hle
    · simp only [add_zero]
      omega
    · simp

theorem episodeTime_later : run.episodeTime later = run.episodeTime now +
    match run.episode with
    | none => 0
    | some _ => later - now := by
  unfold episodeTime
  cases run.episode with
  | none => simp
  | some episode =>
    dsimp only
    omega

end Time

/-! ## A commit -/

/-- What is left once no episode is open. -/
structure Between (run : FillRun) (now : Int) : Prop where
  none_open : run.episode = none
  since : ∀ current, run.state = some current → current.since ≤ now
  ordered : run.closed.Pairwise fun a b => a.stop ≤ b.start
  lengths : ∀ closed ∈ run.closed, closed.start < closed.stop ∧ closed.stop ≤ now

/-- A commit leaves a settled run, and what it changes it changes at that instant. -/
structure CommitSound (run run' : FillRun) (on : Bool) (now : Int) : Prop where
  settled : Settled run' on now
  timeIn_eq : ∀ state, run'.timeIn state now = run.timeIn state now
  episodeTime_eq : run'.episodeTime now = run.episodeTime now

section Commit

variable {policy : FillPolicy} {spec : FillSpec} {value : Int → Valuation} {run run' run'' : FillRun}
  {commit : FillCommit} {on : Bool} {now : Int}

theorem CommitSound.of_eq (h : CommitSound run' run'' on now)
    (htime : ∀ state, run'.timeIn state now = run.timeIn state now)
    (hepisode : run'.episodeTime now = run.episodeTime now) : CommitSound run run'' on now where
  settled := h.settled
  timeIn_eq := fun state => (h.timeIn_eq state).trans (htime state)
  episodeTime_eq := h.episodeTime_eq.trans hepisode

theorem state_setState_some {state : FillState} {epochs : List Nat}
    (h : ∀ current, run.state = some current → current.since ≤ now) :
    ∃ current, (run.setState now (some (state, epochs))).state = some current ∧
      current.state = state ∧ current.since ≤ now := by
  unfold setState
  cases hstate : run.state with
  | none => exact ⟨_, rfl, rfl, le_rfl⟩
  | some current =>
    dsimp only
    split_ifs with hsame
    · exact ⟨_, rfl, hsame, h current hstate⟩
    · exact ⟨_, rfl, rfl, le_rfl⟩

theorem state_setState_none : (run.setState now none).state = none := by
  unfold setState
  cases hstate : run.state with
  | none => exact hstate
  | some current => rfl

theorem episodeTime_congr (hepisode : run'.episode = run.episode) (hclosed : run'.closed = run.closed) :
    run'.episodeTime now = run.episodeTime now := by
  unfold episodeTime
  rw [hepisode, hclosed]

theorem between_close {reason : EndReason} (h : Settled run on now) :
    Between (run.close now reason) now := by
  have hstate : (run.close now reason).state = run.state := by
    unfold close
    split
    · rfl
    · split <;> rfl
  refine ⟨episode_close, by rw [hstate]; exact h.since, ?_, ?_⟩
  · cases hepisode : run.episode with
    | none =>
      simp only [close, hepisode]
      exact h.ordered
    | some episode =>
      rw [closed_close hepisode]
      split_ifs
      · simpa using h.ordered
      · refine List.pairwise_append.mpr ⟨h.ordered, List.pairwise_singleton _ _, ?_⟩
        intro a ha b hb
        rw [List.mem_singleton.mp hb]
        exact (h.lengths a ha).2.2 episode hepisode
  · intro closed hclosed
    cases hepisode : run.episode with
    | none =>
      simp only [close, hepisode] at hclosed
      exact ⟨(h.lengths closed hclosed).1, (h.lengths closed hclosed).2.1⟩
    | some episode =>
      rw [closed_close hepisode, List.mem_append] at hclosed
      rcases hclosed with hclosed | hclosed
      · exact ⟨(h.lengths closed hclosed).1, (h.lengths closed hclosed).2.1⟩
      · split_ifs at hclosed with hle
        · cases hclosed
        · rw [List.mem_singleton.mp hclosed]
          exact ⟨not_le.mp hle, le_rfl⟩

theorem reprice_settled (hfits : FitsSpec spec commit.ladders) (h : Between run commit.time) :
    ∃ run', reprice policy spec value run commit = .ok run' ∧
      CommitSound run run' commit.trigger commit.time := by
  unfold reprice
  split_ifs with htrigger hskip
  · refine ⟨_, rfl, ⟨?_, ?_, ?_, ?_, ?_, ?_⟩, fun state => timeIn_setState h.since,
      episodeTime_congr episode_setState closed_setState⟩
    · rw [state_setState_none, htrigger]
      rfl
    · simp [state_setState_none, h.none_open]
    · simp [state_setState_none]
    · simp [h.none_open]
    · simpa using h.ordered
    · simpa [h.none_open] using h.lengths
  · obtain ⟨current, hstate, hcurrent⟩ := Option.any_eq_true .. |>.mp hskip
    have hne : current.state ≠ .live := (of_decide_eq_true hcurrent).1
    refine ⟨run, rfl, ⟨?_, ?_, h.since, by simp [h.none_open], h.ordered, ?_⟩, fun _ => rfl, rfl⟩
    · rw [hstate]
      simpa using htrigger
    · simp [h.none_open, hstate, hne]
    · simpa [h.none_open] using h.lengths
  · obtain ⟨priced, hprice, -, hlive, hdead⟩ := @price_sound policy spec commit.ladders
      (value commit.time) hfits
    rw [hprice, Except.ok_bind]
    cases hfill : priced.fill with
    | none =>
      have hne : priced.state ≠ .live := by
        intro hstate
        obtain ⟨fill, hsome, -⟩ := hlive hstate
        cases hfill.symm.trans hsome
      obtain ⟨current, hstate, hcurrent, hsince⟩ :=
        @state_setState_some run commit.time priced.state commit.epochs h.since
      refine ⟨_, rfl, ⟨?_, ?_, ?_, ?_, ?_, ?_⟩, fun state => timeIn_setState h.since,
        episodeTime_congr episode_setState closed_setState⟩
      · rw [hstate]
        simpa using htrigger
      · simp [hstate, h.none_open, hcurrent, hne]
      · intro current' hcurrent'
        cases hstate.symm.trans hcurrent'
        exact hsince
      · simp [h.none_open]
      · simpa using h.ordered
      · simpa [h.none_open] using h.lengths
    | some fill =>
      have hlive' : priced.state = .live := by
        by_contra hne
        cases hfill.symm.trans (hdead hne)
      have hsince' : ∀ current, ({ run with episode := some ⟨commit.time, fill⟩ } : FillRun).state =
          some current → current.since ≤ commit.time := h.since
      obtain ⟨current, hstate, hcurrent, hsince⟩ := @state_setState_some
        { run with episode := some ⟨commit.time, fill⟩ } commit.time priced.state commit.epochs hsince'
      refine ⟨_, rfl, ⟨?_, ?_, ?_, ?_, ?_, ?_⟩, fun state => timeIn_setState hsince', ?_⟩
      · rw [hstate]
        simpa using htrigger
      · rw [episode_setState]
        exact iff_of_true rfl ⟨current, hstate, hcurrent.trans hlive'⟩
      · intro current' hcurrent'
        cases hstate.symm.trans hcurrent'
        exact hsince
      · intro episode hepisode
        rw [episode_setState] at hepisode
        cases hepisode
        exact le_rfl
      · rw [closed_setState]
        exact h.ordered
      · intro closed hclosed
        rw [closed_setState] at hclosed
        refine ⟨(h.lengths closed hclosed).1, (h.lengths closed hclosed).2, fun episode hepisode => ?_⟩
        rw [episode_setState] at hepisode
        cases hepisode
        exact (h.lengths closed hclosed).2
      · rw [episodeTime_congr episode_setState closed_setState]
        simp [episodeTime, h.none_open]

theorem Settled.later (h : Settled run on now) {later : Int} (hle : now ≤ later) :
    Settled run on later where
  state_iff := h.state_iff
  open_iff := h.open_iff
  since := fun current hcurrent => (h.since current hcurrent).trans hle
  started := fun episode hepisode => (h.started episode hepisode).trans hle
  ordered := h.ordered
  lengths := fun closed hclosed => by
    obtain ⟨hlt, hstop, hopen⟩ := h.lengths closed hclosed
    exact ⟨hlt, hstop.trans hle, hopen⟩

theorem timeIn_close {state : FillState} {reason : EndReason} :
    (run.close now reason).timeIn state now = run.timeIn state now := by
  unfold close
  split
  · rfl
  · split <;> rfl

/-- A commit closes what ends at its instant and prices again. -/
theorem close_reprice_settled (hfits : FitsSpec spec commit.ladders)
    (h : Settled run on commit.time) (reason : EndReason) :
    ∃ run', reprice policy spec value (run.close commit.time reason) commit = .ok run' ∧
      CommitSound run run' commit.trigger commit.time := by
  obtain ⟨run', hrun, hsound⟩ := @reprice_settled policy spec value _ commit hfits
    (@between_close run on commit.time reason h)
  exact ⟨run', hrun, hsound.of_eq (fun _ => timeIn_close) (episodeTime_close h.started)⟩

theorem commitFill_settled (hfits : FitsSpec spec commit.ladders) (h : Settled run on commit.time) :
    ∃ run', commitFill policy spec value run commit = .ok run' ∧
      CommitSound run run' commit.trigger commit.time := by
  unfold commitFill
  cases hepisode : run.episode with
  | none =>
    exact reprice_settled hfits ⟨hepisode, h.since, h.ordered, fun closed hclosed =>
      ⟨(h.lengths closed hclosed).1, (h.lengths closed hclosed).2.1⟩⟩
  | some episode =>
    dsimp only
    split_ifs with htrigger
    · exact close_reprice_settled hfits h (offReason commit)
    · cases hcrossed : crossed episode.fill.killPrices spec.sources commit.ladders with
      | none =>
        have htrue : commit.trigger = true := by simpa using htrigger
        obtain ⟨current, hstate, -⟩ := h.open_iff.mp (by rw [hepisode]; rfl)
        have hon : on = true := by rw [← h.state_iff, hstate]; rfl
        exact ⟨run, rfl, by rw [htrue, ← hon]; exact h, fun _ => rfl, rfl⟩
      | some hit =>
        -- what is written into the fill is not what the invariant is about
        have hkilled : Settled { run with episode := some (episode.killedAt hit.1 hit.2) } on
            commit.time := by
          refine ⟨h.state_iff, iff_of_true rfl (h.open_iff.mp (by rw [hepisode]; rfl)), h.since, ?_,
            h.ordered, fun closed hclosed => ?_⟩
          · intro killed hopen
            cases hopen
            exact h.started episode hepisode
          · obtain ⟨hlt, hstop, hopen⟩ := h.lengths closed hclosed
            refine ⟨hlt, hstop, fun killed hkilled => ?_⟩
            cases hkilled
            exact hopen episode hepisode
        obtain ⟨run', hrun, hsound⟩ := @close_reprice_settled policy spec value _ commit on hfits
          hkilled .killPrice
        refine ⟨run', hrun, hsound.of_eq (fun _ => rfl) ?_⟩
        unfold episodeTime
        rw [hepisode]
        rfl

end Commit

/-! ## A run -/

/-- `FILL_STATES` -/
def fillStates : List FillState := [.live, .depthShort, .valueUnknown, .nonpositive]

/-- The time in all states. -/
def totalTime (run : FillRun) (now : Int) : Int := (fillStates.map (run.timeIn · now)).sum

/-- The time behind the commits whose trigger was on. -/
def triggeredTime (commits : List FillCommit) : Int :=
  (commits.neighbours.map fun pair => if pair.1.trigger then pair.2.time - pair.1.time else 0).sum

section Run

variable {policy : FillPolicy} {spec : FillSpec} {value : Int → Valuation} {run run' : FillRun}
  {commit last : FillCommit} {commits : List FillCommit} {on : Bool} {now later : Int}

theorem totalTime_later (h : Settled run on now) :
    run.totalTime later = run.totalTime now + if on then later - now else 0 := by
  have hstate := h.state_iff
  simp only [totalTime, fillStates, List.map_cons, List.map_nil, List.sum_cons, List.sum_nil,
    @timeIn_later run _ now later]
  cases hcurrent : run.state with
  | none =>
    rw [hcurrent] at hstate
    simp only [← hstate, Option.isSome_none, Bool.false_eq_true, if_false]
    omega
  | some current =>
    rw [hcurrent] at hstate
    simp only [← hstate, Option.isSome_some, if_true]
    cases current.state <;> simp <;> omega

theorem live_sub_episodeTime_later (h : Settled run on now) :
    run.timeIn .live later - run.episodeTime later = run.timeIn .live now - run.episodeTime now := by
  rw [@timeIn_later run _ now later, @episodeTime_later run now later]
  have hopen := h.open_iff
  cases hepisode : run.episode with
  | none =>
    rw [hepisode] at hopen
    cases hstate : run.state with
    | none => simp
    | some current =>
      have hne : current.state ≠ .live := by
        intro heq
        exact absurd (hopen.mpr ⟨current, hstate, heq⟩) (by simp)
      simp [hne]
  | some episode =>
    rw [hepisode] at hopen
    obtain ⟨current, hstate, hlive⟩ := hopen.mp rfl
    simp only [hstate, hlive, if_true]
    omega

/-- Behind a commit the rest of a run keeps what is settled and adds the triggered time. -/
theorem commits_settled (hfits : ∀ c ∈ commits, FitsSpec spec c.ladders)
    (hsorted : (commit :: commits).Pairwise (·.time ≤ ·.time))
    (h : Settled run commit.trigger commit.time) :
    ∃ run', FillRun.commits policy spec value run commits = .ok run' ∧
      Settled run' ((commit :: commits).getLast (List.cons_ne_nil _ _)).trigger
        ((commit :: commits).getLast (List.cons_ne_nil _ _)).time ∧
      run'.totalTime ((commit :: commits).getLast (List.cons_ne_nil _ _)).time =
        run.totalTime commit.time + triggeredTime (commit :: commits) ∧
      run'.timeIn .live ((commit :: commits).getLast (List.cons_ne_nil _ _)).time -
          run'.episodeTime ((commit :: commits).getLast (List.cons_ne_nil _ _)).time =
        run.timeIn .live commit.time - run.episodeTime commit.time := by
  induction commits generalizing run commit with
  | nil => exact ⟨run, rfl, h, by simp [triggeredTime, List.neighbours], rfl⟩
  | cons next commits ih =>
    obtain ⟨hfirst, hsorted⟩ := List.pairwise_cons.mp hsorted
    have hle := hfirst next List.mem_cons_self
    obtain ⟨run₁, hrun₁, hsound⟩ := @commitFill_settled policy spec value run next commit.trigger
      (hfits next List.mem_cons_self) (h.later hle)
    obtain ⟨run', hrun', hsettled, htotal, hlive⟩ :=
      ih (fun c hc => hfits c (List.mem_cons_of_mem _ hc)) hsorted hsound.settled
    have htotal₁ : run₁.totalTime next.time = run.totalTime next.time := by
      unfold totalTime
      simp only [hsound.timeIn_eq]
    refine ⟨run', ?_, by simpa using hsettled, ?_, ?_⟩
    · rw [FillRun.commits, List.foldlM_cons, hrun₁, Except.ok_bind]
      exact hrun'
    · rw [List.getLast_cons (List.cons_ne_nil _ _), htotal, htotal₁, @totalTime_later run _ _ next.time h]
      simp only [triggeredTime, List.neighbours, List.tail_cons, List.zip_cons_cons, List.map_cons,
        List.sum_cons]
      omega
    · rw [List.getLast_cons (List.cons_ne_nil _ _), hlive, hsound.timeIn_eq, hsound.episodeTime_eq,
        @live_sub_episodeTime_later run _ _ next.time h]

/-- Over a run the time in the four states is the time behind the commits whose trigger was on, the
    live time is the time of the episodes, and no two of these overlap. -/
theorem fill_time_partition (policy : FillPolicy) (spec : FillSpec) (value : Int → Valuation)
    {first : FillCommit} {commits : List FillCommit}
    (hfits : ∀ c ∈ first :: commits, FitsSpec spec c.ladders)
    (hsorted : (first :: commits).Pairwise (·.time ≤ ·.time)) :
    ∃ run last, FillRun.commits policy spec value start (first :: commits) = .ok run ∧
      (first :: commits).getLast? = some last ∧ Settled run last.trigger last.time ∧
      run.totalTime last.time = triggeredTime (first :: commits) ∧
      run.timeIn .live last.time = run.episodeTime last.time := by
  have hstart : Settled start false first.time :=
    ⟨rfl, by simp [start], by simp [start], by simp [start], List.Pairwise.nil, by simp [start]⟩
  obtain ⟨run₁, hrun₁, hsound⟩ := @commitFill_settled policy spec value start first false
    (hfits first List.mem_cons_self) hstart
  obtain ⟨run, hrun, hsettled, htotal, hlive⟩ := @commits_settled policy spec value run₁ first commits
    (fun c hc => hfits c (List.mem_cons_of_mem _ hc)) hsorted hsound.settled
  refine ⟨run, _, ?_, List.getLast?_eq_some_getLast (List.cons_ne_nil _ _), hsettled, ?_, ?_⟩
  · rw [FillRun.commits, List.foldlM_cons, hrun₁, Except.ok_bind]
    exact hrun
  · have hzero : run₁.totalTime first.time = 0 := by
      unfold totalTime
      simp only [hsound.timeIn_eq]
      simp [fillStates, timeIn, start]
    omega
  · have hzero : run₁.timeIn .live first.time - run₁.episodeTime first.time = 0 := by
      rw [hsound.timeIn_eq, hsound.episodeTime_eq]
      simp [timeIn, episodeTime, start]
    omega

end Run

/-- The books of `twoLadders` later, with the trigger off. -/
def offCommit : FillCommit := ⟨5, none, false, twoLadders.ladders, [0, 0]⟩

theorem fits_twoLadders : FitsSpec twoLegs twoLadders.ladders :=
  ⟨by decide, by unfold ValidLadder; decide⟩

/-- A fill at one instant and a commit without a trigger five later. -/
theorem fill_time_partition_two_commits : ∃ run last,
    commits twoSizings twoLegs (fun _ => netOfHundred) start [twoLadders, offCommit] = .ok run ∧
      [twoLadders, offCommit].getLast? = some last ∧ Settled run last.trigger last.time ∧
      run.totalTime last.time = triggeredTime [twoLadders, offCommit] ∧
      run.timeIn .live last.time = run.episodeTime last.time := by
  have hfits : ∀ c ∈ [twoLadders, offCommit], FitsSpec twoLegs c.ladders := by
    simp only [List.forall_mem_cons, List.not_mem_nil, false_implies, implies_true, and_true]
    exact ⟨fits_twoLadders, fits_twoLadders⟩
  exact fill_time_partition twoSizings twoLegs (fun _ => netOfHundred) hfits (by decide)

/-! ## Skipped pricings -/

/-- What follows once no fill is open, without the memory of epochs. -/
def repriceAlways (policy : FillPolicy) (spec : FillSpec) (value : Int → Valuation) (run : FillRun)
    (commit : FillCommit) : Except Raised FillRun :=
  if commit.trigger = false then .ok (run.setState commit.time none)
  else do
    let priced ← price policy spec commit.ladders (value commit.time)
    let run := match priced.fill with
      | none => run
      | some fill => { run with episode := some ⟨commit.time, fill⟩ }
    return run.setState commit.time (some (priced.state, commit.epochs))

/-- A commit that always prices once no fill is open. -/
def commitAlways (policy : FillPolicy) (spec : FillSpec) (value : Int → Valuation) (run : FillRun)
    (commit : FillCommit) : Except Raised FillRun :=
  match run.episode with
  | none => repriceAlways policy spec value run commit
  | some episode =>
    if commit.trigger = false then
      repriceAlways policy spec value (run.close commit.time (offReason commit)) commit
    else match crossed episode.fill.killPrices spec.sources commit.ladders with
      | none => .ok run
      | some (leg, best) =>
        let run := { run with episode := some (episode.killedAt leg best) }
        repriceAlways policy spec value (run.close commit.time .killPrice) commit

/-- A no-fill state is what some earlier commit of these epochs was priced at. -/
def Known (policy : FillPolicy) (spec : FillSpec) (value : Int → Valuation) (seen : List FillCommit)
    (run : FillRun) : Prop :=
  ∀ current, run.state = some current → current.state ≠ .live → ∃ c ∈ seen,
    c.epochs = current.epochs ∧
      price policy spec c.ladders (value c.time) = .ok ⟨current.state, none⟩

section Skip

variable {policy : FillPolicy} {spec : FillSpec} {value : Int → Valuation} {run run' : FillRun}
  {commit : FillCommit} {seen commits : List FillCommit}

theorem state_close {time : Int} {reason : EndReason} : (run.close time reason).state = run.state := by
  unfold close
  split
  · rfl
  · split <;> rfl

theorem reprice_eq_always (hknown : Known policy spec value seen run)
    (hsame : ∀ c ∈ seen, c.epochs = commit.epochs → c.ladders = commit.ladders)
    (hvalue : ∀ t t', value t = value t') :
    reprice policy spec value run commit = repriceAlways policy spec value run commit := by
  unfold reprice repriceAlways
  split_ifs with htrigger hskip
  · rfl
  · obtain ⟨current, hstate, hcurrent⟩ := Option.any_eq_true .. |>.mp hskip
    obtain ⟨hne, hepochs⟩ := of_decide_eq_true hcurrent
    obtain ⟨c, hc, hcepochs, hprice⟩ := hknown current hstate hne
    rw [hsame c hc (hcepochs.trans hepochs), hvalue c.time commit.time] at hprice
    rw [hprice, Except.ok_bind]
    -- the same state and the same epochs again
    have hset : run.setState commit.time (some (current.state, commit.epochs)) = run := by
      unfold setState
      simp only [hstate, if_true, ← hepochs]
      rw [← hstate]
    exact (congrArg Except.ok hset).symm
  · rfl

/-- What is priced now is known from now on. -/
theorem known_repriceAlways (hfits : FitsSpec spec commit.ladders)
    (h : repriceAlways policy spec value run commit = .ok run') :
    Known policy spec value (seen ++ [commit]) run' := by
  unfold repriceAlways at h
  split_ifs at h with htrigger
  · cases h
    intro current hcurrent
    rw [state_setState_none] at hcurrent
    cases hcurrent
  · obtain ⟨priced, hprice, -, -, hdead⟩ := @price_sound policy spec commit.ladders
      (value commit.time) hfits
    rw [hprice, Except.ok_bind] at h
    cases h
    intro current hcurrent hne
    have hnext : current.state = priced.state ∧ current.epochs = commit.epochs := by
      revert hcurrent
      unfold setState
      split
      · intro hcurrent
        cases hcurrent
        exact ⟨rfl, rfl⟩
      · dsimp only
        split_ifs with heq
        · intro hcurrent
          cases hcurrent
          exact ⟨heq, rfl⟩
        · intro hcurrent
          cases hcurrent
          exact ⟨rfl, rfl⟩
    refine ⟨commit, by simp, hnext.2.symm, ?_⟩
    rw [hprice, hnext.1, ← hdead (hnext.1 ▸ hne)]

theorem Known.mono (h : Known policy spec value seen run) :
    Known policy spec value (seen ++ [commit]) run := by
  intro current hcurrent hne
  obtain ⟨c, hc, hrest⟩ := h current hcurrent hne
  exact ⟨c, List.mem_append_left _ hc, hrest⟩

theorem commitFill_eq_always (hfits : FitsSpec spec commit.ladders)
    (hknown : Known policy spec value seen run)
    (hsame : ∀ c ∈ seen, c.epochs = commit.epochs → c.ladders = commit.ladders)
    (hvalue : ∀ t t', value t = value t') :
    commitFill policy spec value run commit = commitAlways policy spec value run commit ∧
      ∀ run', commitAlways policy spec value run commit = .ok run' →
        Known policy spec value (seen ++ [commit]) run' := by
  have hclosed {run₁ : FillRun} (hstate : run₁.state = run.state) :
      Known policy spec value seen run₁ := by
    intro current hcurrent
    rw [hstate] at hcurrent
    exact hknown current hcurrent
  unfold commitFill commitAlways
  cases run.episode with
  | none =>
    exact ⟨reprice_eq_always hknown hsame hvalue, fun _ h => known_repriceAlways hfits h⟩
  | some episode =>
    dsimp only
    split_ifs with htrigger
    · exact ⟨reprice_eq_always (hclosed state_close) hsame hvalue,
        fun _ h => known_repriceAlways hfits h⟩
    · cases crossed episode.fill.killPrices spec.sources commit.ladders with
      | none =>
        refine ⟨rfl, fun run' h => ?_⟩
        cases h
        exact hknown.mono
      | some hit =>
        exact ⟨reprice_eq_always (hclosed state_close) hsame hvalue,
          fun _ h => known_repriceAlways hfits h⟩

theorem commits_eq_always_from (hfits : ∀ c ∈ commits, FitsSpec spec c.ladders)
    (hknown : Known policy spec value seen run)
    (hsame : ∀ c ∈ seen ++ commits, ∀ c' ∈ seen ++ commits, c.epochs = c'.epochs → c.ladders = c'.ladders)
    (hvalue : ∀ t t', value t = value t') :
    FillRun.commits policy spec value run commits =
      commits.foldlM (commitAlways policy spec value) run := by
  induction commits generalizing run seen with
  | nil => rfl
  | cons next commits ih =>
    obtain ⟨heq, hnext⟩ := commitFill_eq_always (hfits next List.mem_cons_self) hknown
      (fun c hc => hsame c (List.mem_append_left _ hc) next (by simp)) hvalue
    rw [FillRun.commits, List.foldlM_cons, List.foldlM_cons, heq]
    cases hrun : commitAlways policy spec value run next with
    | error e => rfl
    | ok run' =>
      rw [Except.ok_bind, Except.ok_bind]
      exact ih (fun c hc => hfits c (List.mem_cons_of_mem _ hc)) (hnext run' hrun)
        (by simpa using hsame)

/-- Where the ladders of equal epochs are equal and the valuation does not change in time, a run that
    skips the pricings it remembers is the run that prices always. -/
theorem commits_eq_always (policy : FillPolicy) (spec : FillSpec) (value : Int → Valuation)
    {commits : List FillCommit} (hfits : ∀ c ∈ commits, FitsSpec spec c.ladders)
    (hsame : ∀ c ∈ commits, ∀ c' ∈ commits, c.epochs = c'.epochs → c.ladders = c'.ladders)
    (hvalue : ∀ t t', value t = value t') :
    FillRun.commits policy spec value start commits =
      commits.foldlM (commitAlways policy spec value) start :=
  @commits_eq_always_from policy spec value start [] commits hfits (by simp [Known, start]) hsame
    hvalue

end Skip

/-- A commit whose books are empty. -/
def emptyCommit (time : Int) : FillCommit := ⟨time, none, true, [[], []], [1, 1]⟩

theorem fits_emptyCommit : FitsSpec twoLegs [[], []] := ⟨by decide, by unfold ValidLadder; decide⟩

/-- The second commit has the books of the first. -/
theorem commits_eq_always_three_commits :
    commits twoSizings twoLegs (fun _ => netOfHundred) start
        [emptyCommit 0, emptyCommit 3, twoLadders] =
      [emptyCommit 0, emptyCommit 3, twoLadders].foldlM
        (commitAlways twoSizings twoLegs fun _ => netOfHundred) start := by
  have hfits : ∀ c ∈ [emptyCommit 0, emptyCommit 3, twoLadders], FitsSpec twoLegs c.ladders := by
    simp only [List.forall_mem_cons, List.not_mem_nil, false_implies, implies_true, and_true]
    exact ⟨fits_emptyCommit, fits_emptyCommit, fits_twoLadders⟩
  exact commits_eq_always twoSizings twoLegs (fun _ => netOfHundred) hfits (by decide) fun _ _ => rfl

end PredictionIndexer.Replay.FillRun
