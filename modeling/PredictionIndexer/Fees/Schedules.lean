import PredictionIndexer.Fees.Domain
import PredictionIndexer.ForStd.Memo
import PredictionIndexer.ForStd.SortByKey

/-!
# Fee schedules

The catalog and the resolver of `replay/fees/schedules.py`. The identity of a value, a digest of its
canonical form, is a parameter. A schedule keeps the times its sources were retrieved and the checks
of its constructor on intervals, scopes and superseded identities; the texts nothing here reads are
left out.
-/

namespace PredictionIndexer.Fees

/-- `builder_id` -/
def Builder.builderId : Builder → Option String
  | .known id _ => some id
  | _ => none

structure Scope where
  venue : Venue
  product : Product
  market : Option String := none
  event : Option String := none
  series : Option String := none
  category : Option String := none
  account : Option String := none
  subaccount : Option String := none
  builder : Option String := none
  instrument : Option String := none
  orientation : Option String := none
deriving DecidableEq

namespace Scope

def rank (scope : Scope) : Nat :=
  if scope.market.isSome then 4
  else if scope.event.isSome then 3
  else if scope.series.isSome then 2
  else if scope.category.isSome then 1
  else 0

/-- A name that is set has to be the context's. -/
def agrees (value own : Option String) : Bool := value = none || value = own

def isMatch (scope : Scope) (context : Context) : Bool :=
  scope.venue = context.venue && scope.product = context.product &&
    agrees scope.market (some context.market) && agrees scope.event context.event &&
    agrees scope.series context.series && agrees scope.category context.category &&
    agrees scope.account (some context.account) &&
    agrees scope.subaccount (some context.subaccount) &&
    agrees scope.instrument (some context.instrument) &&
    agrees scope.orientation (some context.orientation) &&
    agrees scope.builder context.builder.builderId

end Scope

/-- A Kalshi model with a field that is left to the series. -/
def Model.isCleared : Model → Bool
  | .kalshi kind multiplier => kind = none || multiplier = none
  | _ => false

/-- A schedule of a catalog. -/
structure CatalogSchedule extends Schedule where
  scope : Scope
  model : Model
  retrievedAt : List Int
  effectiveFrom : Option Int
  effectiveTo : Option Int
  supersedes : List String
  sourced : retrievedAt ≠ []
  interval : match effectiveFrom with
    | none => effectiveTo = none
    | some start => 0 ≤ start ∧ ∀ stop ∈ effectiveTo, start < stop
  cleared : model.isCleared = true → scope.rank = 3
  distinct : supersedes.Nodup

/-- `known_at` -/
def CatalogSchedule.knownAt (s : CatalogSchedule) : Int :=
  (s.retrievedAt.max?).getD 0

/-- The identities that are digested. -/
structure Digests where
  schedule : CatalogSchedule → String
  catalog : List CatalogSchedule → String
  /-- Of a resolver: its catalog and its reference time. -/
  resolver : List CatalogSchedule → Option Int → String

/-- Schedules in the order of their identities, each once. -/
structure Catalog (ids : Digests) where
  schedules : List CatalogSchedule
  sorted : (schedules.map ids.schedule).Pairwise (· < ·)
  bounded : schedules.length ≤ 10000

/-- The constructor. -/
def Catalog.make (ids : Digests) (schedules : List CatalogSchedule) :
    Except String (Catalog ids) :=
  if hsize : 10000 < schedules.length then .error "unsupported precedence or oversized catalog"
  else if hsorted : (schedules.map ids.schedule).Pairwise (· < ·) then
    .ok ⟨schedules, hsorted, Nat.le_of_not_lt hsize⟩
  else .error "catalog schedules must be unique and identity-sorted"

/-- `Catalog.build` -/
def Catalog.build (ids : Digests) (schedules : List CatalogSchedule) :
    Except String (Catalog ids) :=
  Catalog.make ids (schedules.sortByKey ids.schedule)

/-- A schedule that is chosen, the model in force, and the schedules it rests on. -/
structure Choice where
  schedule : CatalogSchedule
  model : Model
  dependencies : List CatalogSchedule

/-- `Selection | UnknownSchedule`. -/
inductive Chosen where
  | selection (choice : Choice)
  | unknown (u : UnknownSchedule)

structure ScheduleSet where
  context : Context
  eventTime : Int
  knowledgeCutoff : Option Int
  catalogIdentity : String
  platform : Chosen
  builder : Chosen
  account : Chosen
  nextBoundary : Option Int
  referenceTime : Option Int
  snapshotIdentity : Option String

/-! ## Choosing -/

/-- In force at a time; of unknown start only where the reference time asserts it. -/
def CatalogSchedule.isActive (s : CatalogSchedule) (reference : Option Int) (time : Int) : Bool :=
  match s.effectiveFrom with
  | none => reference.isSome
  | some start => start ≤ time && match s.effectiveTo with
    | none => true
    | some stop => time < stop

def sortedIdentities (ids : Digests) (pool : List CatalogSchedule) : List String :=
  (pool.map ids.schedule).sortByKey id

/-- `max` of the ranks, `-1` of none. -/
def maxRank (active : List CatalogSchedule) : Int :=
  active.foldl (fun rank s => max rank s.scope.rank) (-1)

/-- `choose` -/
def choose (ids : Digests) (reference : Option Int) (time : Int) (component : Component)
    (pool : List CatalogSchedule) : Chosen :=
  let pool := pool.filter (·.component = component)
  let active := pool.filter (·.isActive reference time)
  -- unknown applicability does not lose to a broad known default
  let uncertain := pool.filter fun s => s.effectiveFrom = none && reference = none
  let rank := maxRank active
  if uncertain.any fun s => rank ≤ s.scope.rank then
    .unknown ⟨component, .history, sortedIdentities ids uncertain⟩
  else
    let active := active.filter fun s => (s.scope.rank : Int) = rank
    let superseded := active.flatMap (·.supersedes)
    let active := active.filter fun s => ids.schedule s ∉ superseded
    match active with
    | [] => .unknown ⟨component, .missing, sortedIdentities ids pool⟩
    | [s] => .selection ⟨s, s.model, [s]⟩
    | active => .unknown ⟨component, .conflict, sortedIdentities ids active⟩

/-- What the series gives a Kalshi event override that leaves it a field. -/
def fillCleared (choice : Choice) (kind : Option KalshiKind) (multiplier : Option Fixed)
    (series : Chosen) : Chosen :=
  match series with
  | .unknown _ => .unknown ⟨.platform, .missing, []⟩
  | .selection base => match base.model with
    | .kalshi baseKind baseMultiplier =>
      if base.schedule.economics ≠ choice.schedule.economics ∨
          base.schedule.feeAsset ≠ choice.schedule.feeAsset ∨
          base.schedule.feeScale ≠ choice.schedule.feeScale then
        .unknown ⟨.platform, .dimensions, []⟩
      else
        .selection { choice with
          model := .kalshi (kind <|> baseKind) (multiplier <|> baseMultiplier)
          dependencies := [choice.schedule, base.schedule] }
    | _ => .unknown ⟨.platform, .missing, []⟩

/-- The Kalshi event-over-series merge. -/
def mergeSeries (platform series : Chosen) : Chosen :=
  match platform with
  | .unknown _ => platform
  | .selection choice => match choice.model with
    | .kalshi kind multiplier =>
      if kind = none ∨ multiplier = none then fillCleared choice kind multiplier series
      else platform
    | _ => platform

/-! ## Resolving -/

abbrev ScheduleIndex := List ((Venue × Product) × List CatalogSchedule)

/-- `index.setdefault((s.scope.venue, s.scope.product), []).append(s)` -/
def addToIndex (index : ScheduleIndex) (s : CatalogSchedule) : ScheduleIndex :=
  let key := (s.scope.venue, s.scope.product)
  if index.any (·.1 = key) then
    index.map fun entry => if entry.1 = key then (entry.1, entry.2 ++ [s]) else entry
  else index ++ [(key, [s])]

def scheduleIndex (schedules : List CatalogSchedule) : ScheduleIndex :=
  schedules.foldl addToIndex []

/-- `index.get((venue, product), ())` -/
def indexed (index : ScheduleIndex) (key : Venue × Product) : List CatalogSchedule :=
  match index.find? (·.1 = key) with
  | none => []
  | some entry => entry.2

structure ScheduleResolver (ids : Digests) where
  catalog : Catalog ids
  referenceTime : Option Int
  nonneg : ∀ time ∈ referenceTime, 0 ≤ time

abbrev MemoKey := Context × Int × Option Int

/-- Derived state of a resolver. -/
structure ResolverMemo where
  identities : Option (String × Option String) := none
  index : Option ScheduleIndex := none
  selections : List (MemoKey × ScheduleSet) := []

namespace ScheduleResolver

variable {ids : Digests}

def identities (r : ScheduleResolver ids) : String × Option String :=
  (ids.catalog r.catalog.schedules,
    if r.referenceTime.isSome then some (ids.resolver r.catalog.schedules r.referenceTime) else none)

/-- The schedules that apply to a context, as known at the cutoff. -/
def candidates (index : ScheduleIndex) (context : Context) (cutoff : Option Int) :
    List CatalogSchedule :=
  (indexed index (context.venue, context.product)).filter fun s =>
    s.scope.isMatch context && match cutoff with
      | none => true
      | some cutoff => s.knownAt ≤ cutoff

/-- The starts and ends that lie ahead. -/
def boundaries (candidates : List CatalogSchedule) (time : Int) : List Int :=
  (candidates.flatMap fun s => s.effectiveFrom.toList ++ s.effectiveTo.toList).filter (time < ·)

/-- `_compute`, with the identities and the index at hand. -/
def compute (r : ScheduleResolver ids) (identities : String × Option String)
    (index : ScheduleIndex) (key : MemoKey) : ScheduleSet :=
  let (context, time, cutoff) := key
  let candidates := candidates index context cutoff
  let choose := choose ids r.referenceTime time
  { context
    eventTime := time
    knowledgeCutoff := cutoff
    catalogIdentity := identities.1
    platform := mergeSeries (choose .platform candidates)
      (choose .platform (candidates.filter (·.scope.rank = 2)))
    builder := choose .builder candidates
    account := choose .account candidates
    nextBoundary := (boundaries candidates time).min?
    referenceTime := r.referenceTime
    snapshotIdentity := identities.2 }

/-- `_select`: the memo's answer, and the memo. -/
def select (r : ScheduleResolver ids) (key : MemoKey) (memo : ResolverMemo) :
    ScheduleSet × ResolverMemo :=
  let identities := memo.identities.getD r.identities
  let index := memo.index.getD (scheduleIndex r.catalog.schedules)
  let (selected, selections) := Memo.answer (r.compute identities index) 1024 key memo.selections
  -- a hit computes nothing
  if memo.selections.any (·.1 = key) then (selected, { memo with selections })
  else (selected, ⟨some identities, some index, selections⟩)

def resolve (r : ScheduleResolver ids) (context : Context) (eventTime : Int) (cutoff : Option Int)
    (memo : ResolverMemo) : Except String ScheduleSet × ResolverMemo :=
  if eventTime < 0 then (.error "invalid resolution context/time", memo)
  else if cutoff.any fun cutoff => !(0 ≤ cutoff && cutoff ≤ eventTime) then
    (.error "as-known cutoff must not exceed event time; None means retrospective", memo)
  else match r.referenceTime with
    | some reference =>
      if cutoff.isSome then
        (.error "current snapshot does not accept a knowledge cutoff", memo)
      else
        let (set, memo) := r.select (context, reference, none) memo
        (.ok { set with eventTime }, memo)
    | none =>
      let (set, memo) := r.select (context, eventTime, cutoff) memo
      (.ok set, memo)

end ScheduleResolver

end PredictionIndexer.Fees
