import PredictionIndexer.Spec.IngestSteps
import PredictionIndexer.Spec.WindowVerdicts

/-!
# Identity is decided before state

Three indexes hold the first observation of every record id: the map of the classifier, the
`record_identity` table of a partition's store and the scratch table of a merge attempt. `Tracks`
says that an index answers like the list of observations so far, the first one of an id winning.
A fact's cause is `Decided` by that list, and a duplicate or a conflict moves nothing but a count.

## Key results

- `Tracks.push`: remembering an unseen observation and leaving a seen one out, as each index does
- `memory_step`, `store_step`, `attempt_step`: one record through each of the three loops
- `identity_decided_first`: whole runs of the three loops
-/

namespace PredictionIndexer.Spec

open Continuity Fallible Finalize Ingest

/-! ## First observations -/

/-- Record ids with what was observed under them, oldest first. -/
abbrev Observations := List (String × IdentityEntry)

def observation (fact : ContinuityFact) : String × IdentityEntry :=
  (fact.recordId, ⟨fact.content, fact.seq⟩)

/-- The verdict on content, from the first observation of its record id. -/
def verdictFrom (first : Option IdentityEntry) (content : ContentHash) : IdentityVerdict :=
  match first with
  | none => .unseen
  | some entry =>
    if entry.content = content then .duplicate entry.firstSeen
    else .conflict entry.firstSeen entry.content

/-- An index answers with the first observation of each id. -/
def Tracks (get : String → Option IdentityEntry) (obs : Observations) : Prop :=
  ∀ id, get id = obs.lookup id

theorem Tracks.nil {get : String → Option IdentityEntry} (h : ∀ id, get id = none) :
    Tracks get [] := h

/-- One observation through an index: taken in when its id is new, left out when it is not. -/
def Remembers (get get' : String → Option IdentityEntry) (id : String) (entry : IdentityEntry) :
    Prop :=
  (get id = none → ∀ k, get' k = if k = id then some entry else get k) ∧
    (get id ≠ none → ∀ k, get' k = get k)

theorem Tracks.push {get get' : String → Option IdentityEntry} {obs : Observations} {id : String}
    {entry : IdentityEntry} (h : Tracks get obs) (hget : Remembers get get' id entry) :
    Tracks get' (obs ++ [(id, entry)]) := by
  intro k
  rw [List.lookup_append]
  by_cases hnew : get id = none
  · rw [hget.1 hnew k]
    by_cases hk : k = id
    · subst hk
      rw [← h k, hnew]
      simp [List.lookup]
    · have hne : (k == id) = false := by simpa using hk
      rw [if_neg hk, h k]
      simp [List.lookup, hne]
  · rw [hget.2 hnew k, h k]
    by_cases hk : k = id
    · subst hk
      rw [h k] at hnew
      obtain ⟨first, hfirst⟩ := Option.ne_none_iff_exists'.mp hnew
      simp [hfirst]
    · have hne : (k == id) = false := by simpa using hk
      simp [List.lookup, hne]

/-- A first observation is never replaced. -/
theorem Remembers.kept {get get' : String → Option IdentityEntry} {id : String}
    {entry : IdentityEntry} (h : Remembers get get' id entry) (k : String) (first : IdentityEntry)
    (hk : get k = some first) : get' k = some first := by
  by_cases hnew : get id = none
  · rw [h.1 hnew k, if_neg, hk]
    rintro rfl
    rw [hk] at hnew
    cases hnew
  · rw [h.2 hnew k, hk]

/-- The cause of a fact is what the earlier observations of its record id make it. -/
structure Decided (obs : Observations) (fact : ContinuityFact) : Prop where
  duplicate : ∀ original, fact.cause = .duplicate original ↔
    ∃ first, obs.lookup fact.recordId = some first ∧ first.content = fact.content ∧
      first.firstSeen = original
  conflict : ∀ original, fact.cause = .conflict original ↔
    ∃ first, obs.lookup fact.recordId = some first ∧ first.content ≠ fact.content ∧
      first.firstSeen = original

/-- The cause a verdict leads to, `cause` when it is unseen. -/
def causeOf (verdict : IdentityVerdict) (cause : ContinuityCause) : ContinuityCause :=
  match verdict with
  | .unseen => cause
  | .duplicate original => .duplicate original
  | .conflict original _ => .conflict original

theorem Decided.of_verdict {obs : Observations} {fact : ContinuityFact} {cause : ContinuityCause}
    (hc : fact.cause = causeOf (verdictFrom (obs.lookup fact.recordId) fact.content) cause)
    (hcause : obs.lookup fact.recordId = none → cause.Accepted) : Decided obs fact := by
  cases hl : obs.lookup fact.recordId with
  | none =>
    have haccepted := hcause hl
    rw [hl] at hc
    constructor
    · intro original
      simp only [hl]
      constructor
      · intro h
        rw [hc] at h
        simp only [causeOf, verdictFrom] at h
        rw [h] at haccepted
        exact haccepted.elim
      · rintro ⟨first, hfirst, -⟩
        cases hfirst
    · intro original
      simp only [hl]
      constructor
      · intro h
        rw [hc] at h
        simp only [causeOf, verdictFrom] at h
        rw [h] at haccepted
        exact haccepted.elim
      · rintro ⟨first, hfirst, -⟩
        cases hfirst
  | some first =>
    rw [hl] at hc
    by_cases hcontent : first.content = fact.content
    · constructor <;> intro original <;> simp [hc, hl, verdictFrom, hcontent, causeOf]
    · constructor <;> intro original <;> simp [hc, hl, verdictFrom, hcontent, causeOf]

/-! ## A seen record -/

/-- Everything the classifier retains except its two counts. -/
structure SameState (s s' : ClassifierState) : Prop where
  identity : s'.identity = s.identity
  epochs : s'.epochs = s.epochs
  lanes : s'.lanes = s.lanes
  connections : s'.connections = s.connections

/-- A duplicate or a conflict moves nothing but its count. -/
theorem observe_of_seen {s : ClassifierState} {fact : ContinuityFact} {retain : Bool}
    (h : ¬fact.cause.Accepted) : SameState s (s.observe fact retain) := by
  unfold ClassifierState.observe
  cases hc : fact.cause with
  | duplicate original => exact ⟨rfl, rfl, rfl, rfl⟩
  | conflict original => exact ⟨rfl, rfl, rfl, rfl⟩
  | _ => simp [hc, ContinuityCause.Accepted] at h

/-! ## One record -/

theorem classifyWithIdentity_eq_ok {mode : Arithmetic} {hash : String → ContentHash}
    {c : Classifier} {view : EnvelopeView} {position : FactSeq} {verdict : IdentityVerdict}
    {fact : ContinuityFact}
    (h : c.classifyWithIdentity mode hash view position verdict = .ok fact) :
    ∃ cause, cause.Accepted ∧ fact = .accepted position view (Classifier.epochKey view)
      (hash view.rawPayload) (causeOf verdict cause) := by
  unfold Classifier.classifyWithIdentity at h
  cases verdict with
  | unseen =>
    obtain ⟨cause, hcause, h⟩ := Except.bind_eq_ok.mp h
    cases h
    exact ⟨cause, cause_accepted hcause, rfl⟩
  | duplicate original =>
    cases h
    exact ⟨.lifecycle, trivial, rfl⟩
  | conflict original content =>
    cases h
    exact ⟨.lifecycle, trivial, rfl⟩

/-- What an index knows of a record and what its fact says, on the way from one state of the index
    to the next. -/
structure RecordStep (hash : String → ContentHash) (obs : Observations) (view : EnvelopeView)
    (fact : ContinuityFact) (get get' : String → Option IdentityEntry) : Prop where
  recordId : fact.recordId = view.recordId
  content : fact.content = hash view.rawPayload
  decided : Decided obs fact
  tracks : Tracks get' (obs ++ [observation fact])
  /-- A first observation is never replaced. -/
  kept : ∀ id entry, get id = some entry → get' id = some entry

theorem RecordStep.of_classify {mode : Arithmetic} {hash : String → ContentHash} {c : Classifier}
    {view : EnvelopeView} {position : FactSeq} {fact : ContinuityFact} {obs : Observations}
    {get get' : String → Option IdentityEntry} (htracks : Tracks get obs)
    (h : c.classifyWithIdentity mode hash view position
      (verdictFrom (get view.recordId) (hash view.rawPayload)) = .ok fact)
    (hget : Remembers get get' view.recordId ⟨hash view.rawPayload, position⟩) :
    RecordStep hash obs view fact get get' := by
  obtain ⟨cause, hcause, rfl⟩ := classifyWithIdentity_eq_ok h
  constructor
  · rfl
  · rfl
  · refine @Decided.of_verdict _ _ cause ?_ ?_
    · rw [← htracks]
      rfl
    · intro _
      exact hcause
  · exact htracks.push hget
  · exact hget.kept

/-- A verdict from a first observation is unseen when there is none. -/
theorem verdictFrom_eq_unseen {first : Option IdentityEntry} {content : ContentHash} :
    verdictFrom first content = .unseen ↔ first = none := by
  cases first with
  | none => simp [verdictFrom]
  | some entry => by_cases h : entry.content = content <;> simp [verdictFrom, h]

theorem causeOf_accepted {verdict : IdentityVerdict} {cause : ContinuityCause}
    (hcause : cause.Accepted) : (causeOf verdict cause).Accepted ↔ verdict = .unseen := by
  cases verdict with
  | unseen => simpa [causeOf] using hcause
  | duplicate original => simp [causeOf, ContinuityCause.Accepted]
  | conflict original content => simp [causeOf, ContinuityCause.Accepted]

theorem memory_verdict (s : IdentityState) (id : String) (content : ContentHash) :
    s.verdict id content = verdictFrom s.records[id]? content := rfl

theorem store_verdict (s : Store) (id : String) (content : ContentHash) :
    storeVerdict s id content = verdictFrom (s.recordIdentity id) content := rfl

theorem attempt_verdict (a : AttemptIdentity) (id : String) (content : ContentHash) :
    a.verdict id content = verdictFrom a.table[id]? content := rfl

/-- The classifier's own map, as `apply` moves it. -/
theorem memory_step {mode : Arithmetic} {hash : String → ContentHash} {c : Classifier}
    {view : EnvelopeView} {position : FactSeq} {fact : ContinuityFact} {obs : Observations}
    (hretain : c.retainIdentityHistory = true)
    (htracks : Tracks (fun id => c.state.identity.records[id]?) obs)
    (h : c.classify mode hash view position = .ok fact) :
    RecordStep hash obs view fact (fun id => c.state.identity.records[id]?)
      (fun id => (c.apply fact).state.identity.records[id]?) := by
  apply RecordStep.of_classify htracks h
  obtain ⟨cause, hcause, rfl⟩ := classifyWithIdentity_eq_ok h
  set fact := ContinuityFact.accepted position view (Classifier.epochKey view)
    (hash view.rawPayload) (causeOf (verdictFrom c.state.identity.records[view.recordId]?
      (hash view.rawPayload)) cause) with hfact
  have hobserve : ∀ k : String, (c.apply fact).state.identity.records[k]? =
    (c.state.observe fact c.retainIdentityHistory).identity.records[k]? := fun _ => rfl
  constructor
  · intro hnew k
    replace hnew : c.state.identity.records[view.recordId]? = none := hnew
    have haccepted : fact.cause.Accepted := by
      rw [hfact, hnew]
      exact hcause
    have hnotMem : view.recordId ∉ c.state.identity.records := by
      rw [Std.ExtTreeMap.mem_iff_isSome_getElem?, hnew]
      simp
    show (c.apply fact).state.identity.records[k]? = _
    rw [hobserve, observe_of_accepted haccepted, hretain]
    show (c.state.identity.records.insertIfNew view.recordId _)[k]? = _
    rw [Std.ExtTreeMap.getElem?_insertIfNew]
    by_cases hk : k = view.recordId
    · subst hk
      simp [hnotMem, hfact, ContinuityFact.accepted]
    · simp [hk, Ne.symm hk]
  · intro hold k
    have hseen : ¬fact.cause.Accepted := by
      rw [hfact]
      show ¬(causeOf _ cause).Accepted
      rw [causeOf_accepted hcause, verdictFrom_eq_unseen]
      exact hold
    show (c.apply fact).state.identity.records[k]? = _
    rw [hobserve, (observe_of_seen hseen).identity]

/-- The store's `record_identity` table, as one parsed line moves it. -/
theorem store_step {env : IngestEnv} {s s' : IngestState} {captured : CapturedRecord}
    {view : EnvelopeView} {fact : ContinuityFact} {obs : Observations}
    (hcontent : captured.contentHash = env.contentHash view.rawPayload)
    (htracks : Tracks s.store.recordIdentity obs)
    (h : commitView env s captured view = .ok (s', fact)) :
    RecordStep env.contentHash obs view fact s.store.recordIdentity s'.store.recordIdentity := by
  obtain ⟨seq, store, hclassify, hcommit, hremember, -, -⟩ := commitView_eq_ok h
  obtain ⟨rfl, -, -, rfl⟩ := commitFact_eq_ok hcommit
  rw [store_verdict, hcontent] at hclassify
  apply RecordStep.of_classify htracks hclassify
  have hget := (rememberFirst_eq_ok hremember).2
  rw [store_verdict, hcontent] at hget
  constructor
  · intro hnew k
    rw [hget k, if_congr (and_iff_left (verdictFrom_eq_unseen.mpr hnew)) rfl rfl]
    rfl
  · intro hold k
    rw [hget k, if_neg fun h => hold (verdictFrom_eq_unseen.mp h.2)]
    rfl

/-- The scratch table of a merge attempt, as one record moves it. -/
theorem attempt_step {mode : Arithmetic} {hash : String → ContentHash} {a a' : Attempt}
    {r : Accepted} {fact : ContinuityFact} {obs : Observations}
    (htracks : Tracks (fun id => a.identity.table[id]?) obs)
    (h : a.accept mode hash r = .ok (fact, a')) :
    RecordStep hash obs r.view fact (fun id => a.identity.table[id]?)
      (fun id => a'.identity.table[id]?) := by
  unfold Attempt.accept at h
  obtain ⟨fact', hfact, h⟩ := Except.bind_eq_ok.mp h
  rw [attempt_verdict] at hfact h
  split at h
  · rename_i hunseen
    obtain ⟨identity, hremember, h⟩ := Except.bind_eq_ok.mp h
    cases h
    apply RecordStep.of_classify htracks hfact
    rw [verdictFrom_eq_unseen] at hunseen
    unfold AttemptIdentity.remember at hremember
    split at hremember
    · exact nomatch hremember
    · cases hremember
      constructor
      · intro _ k
        show (a.identity.table.insert _ _)[k]? = _
        rw [Std.ExtTreeMap.getElem?_insert]
        by_cases hk : k = r.view.recordId
        · subst hk
          simp
        · simp [hk, Ne.symm hk]
      · intro hold
        exact absurd hunseen hold
  · rename_i hseen
    cases h
    apply RecordStep.of_classify htracks hfact
    rw [verdictFrom_eq_unseen] at hseen
    constructor
    · intro hnew
      exact absurd hnew hseen
    · intro _ k
      rfl

/-! ## Whole runs -/

/-- A run over records: each fact is decided by the observations before it, and the index answers
    from all of them. -/
structure DecidedRun (hash : String → ContentHash) (before : Observations)
    (views : List EnvelopeView) (facts : List ContinuityFact)
    (get : String → Option IdentityEntry) : Prop where
  records : facts.map (fun f => (f.recordId, f.content)) =
    views.map fun v => (v.recordId, hash v.rawPayload)
  decided : ∀ earlier fact later, facts = earlier ++ fact :: later →
    Decided (before ++ earlier.map observation) fact
  tracks : Tracks get (before ++ facts.map observation)

namespace DecidedRun

variable {hash : String → ContentHash} {obs : Observations} {view : EnvelopeView}
  {views : List EnvelopeView} {fact : ContinuityFact} {facts : List ContinuityFact}
  {get get' get'' : String → Option IdentityEntry}

theorem nil (h : Tracks get obs) : DecidedRun hash obs [] [] get where
  records := rfl
  decided := by
    intro earlier fact later h
    simp at h
  tracks := by simpa using h

theorem cons (hstep : RecordStep hash obs view fact get get')
    (hrun : DecidedRun hash (obs ++ [observation fact]) views facts get'') :
    DecidedRun hash obs (view :: views) (fact :: facts) get'' where
  records := by simp [hstep.recordId, hstep.content, hrun.records]
  decided := by
    intro earlier f later h
    cases earlier with
    | nil =>
      cases h
      simpa using hstep.decided
    | cons e earlier =>
      cases h
      have := hrun.decided earlier f later rfl
      simpa using this
  tracks := by simpa using hrun.tracks

theorem append {views' : List EnvelopeView} {facts' : List ContinuityFact}
    (h : DecidedRun hash obs views facts get)
    (h' : DecidedRun hash (obs ++ facts.map observation) views' facts' get') :
    DecidedRun hash obs (views ++ views') (facts ++ facts') get' := by
  constructor
  · rw [List.map_append, List.map_append, h.records, h'.records]
  · intro earlier fact later heq
    rcases List.append_eq_append_iff.mp heq with ⟨rest, rfl, hrest⟩ | ⟨rest, hfacts, hrest⟩
    · simpa using h'.decided rest fact later hrest
    · cases rest with
      | nil =>
        rw [List.append_nil] at hfacts
        subst hfacts
        simpa using h'.decided [] fact later hrest.symm
      | cons f rest =>
        cases hrest
        exact h.decided earlier fact rest hfacts
  · simpa using h'.tracks

end DecidedRun

/-- The classifier over its own map. -/
theorem memory_run {mode : Arithmetic} {hash : String → ContentHash} {views : List EnvelopeView}
    {seq : FactSeq} {c c' : Classifier} {obs : Observations} {facts : List ContinuityFact}
    (hretain : c.retainIdentityHistory = true)
    (htracks : Tracks (fun id => c.state.identity.records[id]?) obs)
    (h : c.classifyAll mode hash seq views = .ok (facts, c')) :
    DecidedRun hash obs views facts (fun id => c'.state.identity.records[id]?) := by
  induction views generalizing c seq obs facts with
  | nil =>
    cases h
    exact .nil htracks
  | cons view views ih =>
    unfold Classifier.classifyAll at h
    obtain ⟨fact, hfact, h⟩ := Except.bind_eq_ok.mp h
    obtain ⟨⟨facts, c''⟩, hrest, h⟩ := Except.bind_eq_ok.mp h
    cases h
    have hstep := memory_step hretain htracks hfact
    exact .cons hstep (ih (c := c.apply fact) hretain hstep.tracks hrest)

/-- A merge attempt over its scratch table. -/
theorem attempt_run {mode : Arithmetic} {hash : String → ContentHash} {rs : List Accepted}
    {a a' : Attempt} {obs : Observations} {facts : List ContinuityFact}
    (htracks : Tracks (fun id => a.identity.table[id]?) obs)
    (h : a.acceptAll mode hash rs = .ok (facts, a')) :
    DecidedRun hash obs (rs.map (·.view)) facts (fun id => a'.identity.table[id]?) := by
  induction rs generalizing a obs facts with
  | nil =>
    cases h
    exact .nil htracks
  | cons r rs ih =>
    unfold Attempt.acceptAll at h
    obtain ⟨⟨fact, a₁⟩, hfact, h⟩ := Except.bind_eq_ok.mp h
    obtain ⟨⟨facts, a₂⟩, hrest, h⟩ := Except.bind_eq_ok.mp h
    cases h
    have hstep := attempt_step htracks hfact
    exact .cons hstep (ih hstep.tracks hrest)

/-- The lines of a batch that parse. -/
def parsedViews (env : IngestEnv) (batch : List (Nat × List UInt8)) : List EnvelopeView :=
  batch.filterMap fun entry => (EnvelopeView.parse env.json entry.2).toOption

theorem commitLines_run {env : IngestEnv} {lane key : String} {batch : List (Nat × List UInt8)}
    {s s' : IngestState} {obs : Observations} {facts : List ContinuityFact}
    (htracks : Tracks s.store.recordIdentity obs)
    (h : commitLines env lane key s batch = .ok (s', facts)) :
    DecidedRun env.contentHash obs (parsedViews env batch) facts s'.store.recordIdentity := by
  induction batch generalizing s obs facts with
  | nil =>
    cases h
    exact .nil htracks
  | cons entry batch ih =>
    obtain ⟨s₁, fact, rest, hline, hrest, rfl⟩ := commitLines_cons_eq_ok h
    rcases commitLine_eq_ok hline with ⟨captured, store, hcapture, hparse, rfl, rfl⟩ |
      ⟨view, captured, store, f, hparse, hcapture, hview, rfl⟩
    · -- evidence without a fact: no identity either
      have htracks₁ : Tracks store.recordIdentity obs := by
        rw [(captureRaw_eq_ok hcapture).2.2.2]
        exact htracks
      have := ih (s := { s with store }) htracks₁ hrest
      simpa [parsedViews, hparse] using this
    · obtain ⟨-, hcontent, -, hstore⟩ := captureRaw_eq_ok hcapture
      have htracks₁ : Tracks store.recordIdentity obs := by
        rw [hstore]
        exact htracks
      have hstep := store_step (s := { s with store }) hcontent htracks₁ hview
      have := DecidedRun.cons hstep (ih hstep.tracks hrest)
      simpa [parsedViews, hparse, Except.toOption] using this

/-- One call of `commit_batch`. -/
structure BatchCall where
  lane : String
  key : String
  recordsBefore : Nat
  lines : List (Nat × List UInt8)

/-- Every batch a partition ingests, whatever segments they come from. -/
def commitRun (env : IngestEnv) (s : IngestState) :
    List BatchCall → Except IngestError (IngestState × List ContinuityFact)
  | [] => .ok (s, [])
  | call :: calls => do
    let (s, facts) ← commitBatch env call.lane call.key call.recordsBefore call.lines s
    let (s, rest) ← commitRun env s calls
    return (s, facts ++ rest)

/-- A partition over its `record_identity` table. -/
theorem store_run {env : IngestEnv} {calls : List BatchCall} {s s' : IngestState}
    {obs : Observations} {facts : List ContinuityFact}
    (htracks : Tracks s.store.recordIdentity obs) (h : commitRun env s calls = .ok (s', facts)) :
    DecidedRun env.contentHash obs (calls.flatMap fun call => parsedViews env call.lines) facts
      s'.store.recordIdentity := by
  induction calls generalizing s obs facts with
  | nil =>
    cases h
    exact .nil htracks
  | cons call calls ih =>
    unfold commitRun at h
    obtain ⟨⟨s₁, facts₁⟩, hbatch, h⟩ := Except.bind_eq_ok.mp h
    obtain ⟨⟨s₂, rest⟩, hrest, h⟩ := Except.bind_eq_ok.mp h
    cases h
    obtain ⟨s₃, hlines, rfl⟩ := commitBatch_eq_ok hbatch
    have hrun := commitLines_run htracks hlines
    apply hrun.append (ih _ hrest)
    exact hrun.tracks

/-! ## Duplicates and conflicts move nothing -/

theorem commitView_of_seen {env : IngestEnv} {s s' : IngestState} {captured : CapturedRecord}
    {view : EnvelopeView} {fact : ContinuityFact}
    (h : commitView env s captured view = .ok (s', fact)) (hseen : ¬fact.cause.Accepted) :
    SameState s.classifier.state s'.classifier.state ∧
      s'.store.recordIdentity = s.store.recordIdentity := by
  obtain ⟨seq, store, hclassify, hcommit, hremember, hclassifier, -⟩ := commitView_eq_ok h
  obtain ⟨cause, hcause, rfl⟩ := classifyWithIdentity_eq_ok hclassify
  obtain ⟨-, -, -, rfl⟩ := commitFact_eq_ok hcommit
  constructor
  · rw [hclassifier]
    exact observe_of_seen hseen
  · funext k
    rw [(rememberFirst_eq_ok hremember).2 k, if_neg]
    · rfl
    · intro hk
      exact hseen ((causeOf_accepted hcause).mpr hk.2)

theorem accept_of_seen {mode : Arithmetic} {hash : String → ContentHash} {a a' : Attempt}
    {r : Accepted} {fact : ContinuityFact} (h : a.accept mode hash r = .ok (fact, a'))
    (hseen : ¬fact.cause.Accepted) :
    SameState a.classifier.state a'.classifier.state ∧ a'.identity = a.identity := by
  unfold Attempt.accept at h
  obtain ⟨fact', hfact, h⟩ := Except.bind_eq_ok.mp h
  split at h
  · rename_i hunseen
    obtain ⟨identity, -, h⟩ := Except.bind_eq_ok.mp h
    cases h
    rw [hunseen] at hfact
    obtain ⟨cause, hcause, rfl⟩ := classifyWithIdentity_eq_ok hfact
    exact absurd hcause hseen
  · cases h
    exact ⟨observe_of_seen hseen, rfl⟩

/-! ## The three loops together -/

/-- Identity is decided before state. In every run of the classifier over its own map, of a
    partition over its store and of a merge attempt over its scratch table, each fact is a
    duplicate (a conflict) exactly when the first earlier record of its id has the same (other)
    content; such a record moves no connection, epoch or lane and no first observation; and after
    runs over the same observations the three indexes give every record the same verdict. -/
theorem identity_decided_first (env : IngestEnv) :
    (∀ seq views facts c,
      Classifier.new.classifyAll env.mode env.contentHash seq views = .ok (facts, c) →
        DecidedRun env.contentHash [] views facts fun id => c.state.identity.records[id]?) ∧
    (∀ s calls s' facts, (∀ id, s.store.recordIdentity id = none) →
      commitRun env s calls = .ok (s', facts) →
        DecidedRun env.contentHash [] (calls.flatMap fun call => parsedViews env call.lines) facts
          s'.store.recordIdentity) ∧
    (∀ ordering first rs facts a,
      (Attempt.start ordering first).acceptAll env.mode env.contentHash rs = .ok (facts, a) →
        DecidedRun env.contentHash [] (rs.map (·.view)) facts fun id => a.identity.table[id]?) ∧
    (∀ (c : Classifier) fact, ¬fact.cause.Accepted → SameState c.state (c.apply fact).state) ∧
    (∀ s captured view s' fact, commitView env s captured view = .ok (s', fact) →
      ¬fact.cause.Accepted → SameState s.classifier.state s'.classifier.state ∧
        s'.store.recordIdentity = s.store.recordIdentity) ∧
    (∀ (a : Attempt) r fact a', a.accept env.mode env.contentHash r = .ok (fact, a') →
      ¬fact.cause.Accepted → SameState a.classifier.state a'.classifier.state ∧
        a'.identity = a.identity) ∧
    (∀ views₁ views₂ views₃ facts₁ facts₂ facts₃ (c : Classifier) (s : Store) (a : Attempt),
      DecidedRun env.contentHash [] views₁ facts₁ (fun id => c.state.identity.records[id]?) →
      DecidedRun env.contentHash [] views₂ facts₂ s.recordIdentity →
      DecidedRun env.contentHash [] views₃ facts₃ (fun id => a.identity.table[id]?) →
      facts₁.map observation = facts₂.map observation →
      facts₂.map observation = facts₃.map observation → ∀ id content,
        c.state.identity.verdict id content = storeVerdict s id content ∧
          storeVerdict s id content = a.identity.verdict id content) := by
  refine ⟨?_, ?_, ?_, ?_, ?_, ?_, ?_⟩
  · intro seq views facts c h
    exact memory_run rfl (.nil fun id => by simp [Classifier.new]) h
  · intro s calls s' facts hfresh h
    exact store_run (.nil hfresh) h
  · intro ordering first rs facts a h
    exact attempt_run (.nil fun id => by simp [Attempt.start]) h
  · intro c fact hseen
    exact observe_of_seen hseen
  · intro s captured view s' fact h hseen
    exact commitView_of_seen h hseen
  · intro a r fact a' h hseen
    exact accept_of_seen h hseen
  · intro views₁ views₂ views₃ facts₁ facts₂ facts₃ c s a h₁ h₂ h₃ h₁₂ h₂₃ id content
    have e₁ : c.state.identity.records[id]? = _ := h₁.tracks id
    have e₂ := h₂.tracks id
    have e₃ : a.identity.table[id]? = _ := h₃.tracks id
    rw [memory_verdict, store_verdict, attempt_verdict, e₁, e₂, e₃, h₁₂, h₂₃]
    exact ⟨rfl, rfl⟩

/-- An environment for runs on fixed inputs: content is its own digest. -/
def identityEnv : IngestEnv where
  json := ⟨fun _ => .error "", fun _ => none, fun _ => none⟩
  factJson := fun _ => .error ""
  hashes := {
    evidence := fun _ => ""
    content := fun bytes => ⟨(bytes ++ List.replicate 32 0).take 32, by simp⟩
    fact := fun _ => "" }
  mode := .checked

/-- A trade of one connection. -/
def identityView (recordId payload : String) (counter : Nat) : EnvelopeView where
  envelopeVersion := 1
  deliveryIndex := 0
  recordId
  visibleNs := 0
  monotonicNs := none
  venue := .polymarket
  stream := .publicTrade
  connectionEpoch := "e1"
  localCounter := counter
  sourceCursor := none
  kind := .venueFrame
  rawPayload := payload
  index_lt := by decide

/-- One record id three times, its content changed once. -/
def identityViews : List EnvelopeView :=
  [identityView "a" "x" 1, identityView "a" "y" 2, identityView "a" "y" 3]

theorem identityViews_run :
    ∃ facts c, Classifier.new.classifyAll identityEnv.mode identityEnv.contentHash Sequence.first
        identityViews = .ok (facts, c) ∧
      facts.map (·.cause) = [.bootstrap, .conflict Sequence.first, .conflict Sequence.first] :=
  ⟨_, _, rfl, by decide⟩

/-- The run of `identityViews` is decided by its first record. -/
theorem identity_decided_first_sample :
    ∃ facts c, Classifier.new.classifyAll identityEnv.mode identityEnv.contentHash Sequence.first
        identityViews = .ok (facts, c) ∧
      DecidedRun identityEnv.contentHash [] identityViews facts
        fun id => c.state.identity.records[id]? := by
  obtain ⟨facts, c, hrun, -⟩ := identityViews_run
  exact ⟨facts, c, hrun, (identity_decided_first identityEnv).1 _ _ _ _ hrun⟩

/-- The third record has an earlier record of its id with its content, and is a conflict. -/
theorem duplicate_of_any_earlier_fails :
    ¬∀ (env : IngestEnv) seq views facts c,
      Classifier.new.classifyAll env.mode env.contentHash seq views = .ok (facts, c) →
        ∀ earlier fact later, facts = earlier ++ fact :: later →
          ((∃ original, fact.cause = .duplicate original) ↔
            ∃ f ∈ earlier, f.recordId = fact.recordId ∧ f.content = fact.content) := by
  intro hall
  have hrun := hall identityEnv Sequence.first identityViews _ _ rfl
  have hthird := (hrun [_, _] _ [] rfl).mpr
    ⟨_, List.mem_cons_of_mem _ List.mem_cons_self, rfl, rfl⟩
  obtain ⟨original, horiginal⟩ := hthird
  revert horiginal
  exact nofun

end PredictionIndexer.Spec
