import VgiDatafusion.Cache.Job
import VgiDatafusion.Cache.Flights
import VgiDatafusion.Library.Program

/-!
# Exchange calls (table_input.rs:111-476, 680-707, 861-1193; scalar.rs:858-883, 953-1461)

| here | there |
| --- | --- |
| `ExchangeM` | a body that asks its surroundings and may return early with an error |
| `Question` | the registry of flights; everything else it calls is an `Outside` question |
| `runExchange` | `run_exchange`, one definition a loop |
| `runBuffered`, `runLifecycle` | `run_buffered` and its closure |
| `runScalarExchange` | `run_scalar_exchange`, one definition a loop |
| `settleMisses` | the loop over `producers` (scalar.rs:1353-1399) |
| `ExchangeOps` | what the bodies do with record batches |

Every answer of the surroundings is possible: of the worker, of the cache, of the clock. A unit with a claim
has a key, so the key is part of the claim here. The loops of the source that visit one unit after the other
and write to that unit only are passes over the list. Metrics and events are left out.
-/
namespace VgiDatafusion

open Program

/-- `vgi_client::CacheControl` as the exchange paths read it, with the flag for single values. -/
structure ExchangeControl extends CacheControl where
  perValue : Bool := false
  deriving DecidableEq, Repr

/-- `ExchangeCacheKeyTemplate`. -/
structure Template (K R : Type) where
  inputDigest : R → Except String (List UInt8)
  keyForDigest : List UInt8 → K
  keyForUnorderedInputs : List R → Except String K

/-- `ExchangeCacheKeyTemplate::key_for_input` (`table_input.rs:531-537`). -/
def Template.keyForInput {K R : Type} (template : Template K R) (input : R) : Except String K :=
  (template.inputDigest input).map template.keyForDigest

/-- What is known once the function is bound. -/
structure BoundCall where
  /-- `cache_environment_ineligible_reason` gave a reason. -/
  environmentIneligible : Bool
  secretDependent : Bool

/-- What the bodies do with record batches; nothing else of a batch is read. -/
structure ExchangeOps (R : Type) where
  rows : R → Nat
  columns : R → Nat
  memorySize : R → Nat
  slice : R → Nat → Nat → R
  /-- `concat_batches` under the schema of the input, and under the output schema. -/
  concatInputs : List R → Except String R
  concatOutputs : List R → Except String R
  /-- `take` of every column, into a batch of the same schema. -/
  take : R → List Nat → Except String R
  /-- `take` of the first column, into a batch of the output schema. -/
  gather : R → List Nat → Except String R
  hasOutputSchema : R → Bool

/-- `if_none_match` and `if_modified_since`. -/
abbrev Conditions := Option String × Option String

/-- A call of the client library, of the result cache or of the guard. -/
inductive Outside (K R : Type)
  /-- Connecting, attaching, binding. -/
  | bind
  | template (kind : String)
  | get (key : K)
  | getForRevalidation (key : K)
  | mayServeOnError (entry : CachedEntry R)
  | eligibility (control : Option ExchangeControl) (key : K) (bytes : Nat)
  | insert (key : K) (batches : List R) (ttl : Nat) (control : Option ExchangeControl)
  | remove (key : K)
  | slide (key : K) (ttl : Nat)
  | openExchange (conditions : Conditions)
  /-- `send`, and the cache control of the exchange after it. -/
  | send (input : R)
  | close
  | bufferingBegin
  | bufferingProcess (execution : Token) (input : R) (index : Nat)
  | bufferingCombine (execution : Token) (states : List Token)
  /-- The finalize stream, read to its end. -/
  | bufferingFinalize (execution state : Token) (conditions : Conditions)
  | commitAllowed
  | hasPerValueOptIn
  | notePerValueOptIn

@[reducible] def Outside.Reply {K R : Type} : Outside K R → Type
  | .bind => Except String BoundCall
  | .template _ => Except String (Option (Template K R))
  | .get _ | .getForRevalidation _ => Option (CachedEntry R)
  | .mayServeOnError _ | .commitAllowed | .hasPerValueOptIn => Bool
  | .eligibility .. => Except String Nat
  | .insert .. | .remove _ | .slide .. | .notePerValueOptIn => PUnit
  | .openExchange _ | .close => Except String PUnit
  | .send _ => Except String (Option R × Option ExchangeControl)
  | .bufferingBegin | .bufferingProcess .. => Except String Token
  | .bufferingCombine .. => Except String (List Token)
  | .bufferingFinalize .. => Except String (List R × Option ExchangeControl)

/-- `ResultFlightClaim`. -/
inductive FlightClaim
  | producer (f : Nat)
  | follower (w : Nat)

/-- What a body asks: the registry of flights (`runtime.rs:613-801`), or something outside of it. -/
inductive Question (K R : Type)
  | acquire (key : K)
  /-- `stored` or `abort`. -/
  | finish (f : Nat) (outcome : FlightOutcome)
  /-- `wait_blocking_timeout`. -/
  | wait (w : Nat)
  | outside (question : Outside K R)

@[reducible] def Question.Reply {K R : Type} : Question K R → Type
  | .acquire _ => FlightClaim
  | .finish .. => PUnit
  | .wait _ => FlightOutcome
  | .outside question => question.Reply

abbrev ExchangeProg (K R α : Type) := Prog (Question K R) Question.Reply α

abbrev ExchangeM (K R α : Type) := ExceptT String (ExchangeProg K R) α

namespace Exchange

section
variable {K R α : Type}

/-- `acquire_result_flight` (`runtime.rs:613-615`). -/
def acquire (key : K) : ExchangeM K R FlightClaim := ExceptT.lift (Prog.ask (Question.acquire key))

/-- `ResultFlightProducer::finish` (`runtime.rs:767-780`). -/
def finish (f : Nat) (outcome : FlightOutcome) : ExchangeM K R PUnit := ExceptT.lift (Prog.ask (Question.finish f outcome))

/-- `ResultFlightWaiter::wait_blocking_timeout` (`runtime.rs:719-747`). -/
def wait (w : Nat) : ExchangeM K R FlightOutcome := ExceptT.lift (Prog.ask (Question.wait w))

def outside (question : Outside K R) : ExchangeM K R question.Reply := ExceptT.lift (Prog.ask (Question.outside question))

/-- `ResultFlightProducer::stored` (`runtime.rs:759-761`). -/
def stored (f : Nat) : ExchangeM K R PUnit := finish f .stored

/-- `ResultFlightProducer::abort` (`runtime.rs:763-765`). -/
def abort (f : Nat) (reason : String) : ExchangeM K R PUnit := finish f (.aborted reason)

/-- A result that is looked at, not returned early. -/
def captured (p : ExchangeM K R α) : ExchangeM K R (Except String α) := ExceptT.lift p.run

/-! ## Parts that touch no flight -/

def bindCall : ExchangeM K R BoundCall := outside .bind >>= liftExcept

def cacheKeyTemplate (kind : String) : ExchangeM K R (Option (Template K R)) := outside (.template kind) >>= liftExcept

/-- No template, no key, no flight. -/
def templateUnless (ineligible : Bool) (kind : String) : ExchangeM K R (Option (Template K R)) :=
  if ineligible then return none else cacheKeyTemplate kind

/-- `exchange_cache_ttl` (`table_input.rs:41-48`): the reason, where the answer may not be kept. -/
def exchangeCacheTtl (control : Option ExchangeControl) (key : K) (bytes : Nat) : ExchangeM K R (Except String Nat) :=
  outside (.eligibility control key bytes)

def openExchange (conditions : Conditions) : ExchangeM K R PUnit := outside (.openExchange conditions) >>= liftExcept

def send (input : R) : ExchangeM K R (Option R × Option ExchangeControl) := outside (.send input) >>= liftExcept

def close : ExchangeM K R PUnit := outside .close >>= liftExcept

/-- An exchange of one input: opened, answered, closed. -/
def exchangeOnce (conditions : Conditions) (input : R) : ExchangeM K R (Option R × Option ExchangeControl) := do
  openExchange conditions
  let answer ← send input
  close
  return answer

/-- `exchangeOnce` where an answer is expected. -/
def exchangeAnswered (missing : String) (conditions : Conditions) (input : R) :
    ExchangeM K R (R × Option ExchangeControl) := do
  match ← exchangeOnce conditions input with
  | (some answer, control) => return (answer, control)
  | (none, _) => throw missing

/-- What a follower reads once the producer has stored. -/
def storedEntry (key : K) : ExchangeM K R (Option (CachedEntry R)) := do
  match ← outside (.get key) with
  | some entry => return some entry
  | none => outside (.getForRevalidation key)

/-- A follower's entry, if its wait ended with one. -/
def awaitEntry (key : K) (w : Nat) : ExchangeM K R (Option (CachedEntry R)) := do
  match ← wait w with
  | .stored => storedEntry key
  | .aborted _ => return none

def notModified (control : Option ExchangeControl) : Bool := control.any (·.notModified)

end

variable {K R : Type} (ops : ExchangeOps R) (function : String)

/-! ## `run_exchange` -/

/-- `UnitState` (`table_input.rs:130-135`) of a unit of `run_exchange`. -/
inductive UnitState (K R : Type)
  | hit (batches : List R)
  | producer (key : K) (f : Nat)
  | follower (key : K) (w : Nat)
  | uncached

/-- `Unit` (`table_input.rs:137-143`): an input batch with what is to become of it. -/
structure ExchangeUnit (K R : Type) where
  input : R
  state : UnitState K R
  output : Option (List R) := none

/-- The loop over the inputs (`table_input.rs:185-217`): a hit, or the flight of the key. -/
def claimUnit (template : Option (Template K R)) (input : R) : ExchangeM K R (ExchangeUnit K R) :=
  match template with
  | none => return { input, state := .uncached }
  | some template => do
    let key ← liftExcept (template.keyForInput input)
    match ← outside (.get key) with
    | some entry => return { input, state := .hit entry.batches }
    | none =>
      match ← acquire key with
      | .producer f => return { input, state := .producer key f }
      | .follower w => return { input, state := .follower key w }

/-- An entry of `revalidations` (`table_input.rs:222-233`). -/
def findStale (unit : ExchangeUnit K R) : ExchangeM K R (ExchangeUnit K R × Option (CachedEntry R)) :=
  match unit.state with
  | .producer key _ => do
    let stale ← outside (.getForRevalidation key)
    return (unit, stale)
  | _ => return (unit, none)

/-- The answer to a conditional exchange, by its cache control. -/
def acceptRevalidation (unit : ExchangeUnit K R) (key : K) (f : Nat) (stale : CachedEntry R) (answer : R)
    (control : Option ExchangeControl) : ExchangeM K R (ExchangeUnit K R) :=
  if notModified control then
    if ops.rows answer ≠ 0 then throw s!"VGI function `{function}` returned rows and not_modified together"
    else do
      match ← exchangeCacheTtl control key stale.bytes with
      | .ok ttl =>
        outside (.slide key ttl)
        stored f
        return { unit with output := some stale.batches }
      | .error reason =>
        outside (.remove key)
        abort f s!"revalidation revoked cache: {reason}"
        throw s!"VGI function `{function}` returned not_modified with ineligible cache control: {reason}"
  else do
    match ← exchangeCacheTtl control key (ops.memorySize answer) with
    | .ok ttl =>
      outside (.insert key [answer] ttl control)
      stored f
      return { unit with output := some [answer] }
    | .error reason =>
      outside (.remove key)
      abort f s!"cache refused result: {reason}"
      return { unit with output := some [answer] }

/-- The loop over `revalidations` (`table_input.rs:234-352`): one conditional exchange for each stale entry. -/
def revalidateUnit (unit : ExchangeUnit K R × Option (CachedEntry R)) : ExchangeM K R (ExchangeUnit K R) :=
  match unit.2, unit.1.state with
  | some stale, .producer key f => do
    let missing := s!"{function} ended a conditional exchange without an answer"
    match ← captured (exchangeAnswered missing (stale.etag, stale.lastModified) unit.1.input) with
    | .ok (answer, control) => acceptRevalidation ops function unit.1 key f stale answer control
    | .error error =>
      if ← outside (.mayServeOnError stale) then
        stored f
        return { unit.1 with output := some stale.batches }
      else throw error
  | _, _ => return unit.1

/-- In `direct` (`table_input.rs:354-362`). -/
def ExchangeUnit.isDirect (unit : ExchangeUnit K R) : Bool :=
  unit.output.isNone && match unit.state with
    | .producer .. | .uncached => true
    | _ => false

/-- An answer that the cache takes, or a flight given up with the reason. -/
def storeAnswer (key : K) (f : Nat) (answer : R) (control : Option ExchangeControl) : ExchangeM K R PUnit := do
  match ← exchangeCacheTtl control key (ops.memorySize answer) with
  | .ok ttl =>
    outside (.insert key [answer] ttl control)
    stored f
  | .error reason => abort f s!"cache refused result: {reason}"

/-- A keyed answer is offered to the cache; no answer, no entry. -/
def settleUnit (unit : ExchangeUnit K R) (answer : Option R) (control : Option ExchangeControl) : ExchangeM K R PUnit :=
  match unit.state, answer with
  | .producer key f, some answer => storeAnswer ops key f answer control
  | .producer _ f, none => abort f "worker returned no cacheable answer"
  | _, _ => return ⟨⟩

/-- One turn of the loop over `direct` (`table_input.rs:367-432`). -/
def sendUnit (unit : ExchangeUnit K R) : ExchangeM K R (ExchangeUnit K R) :=
  if unit.isDirect then do
    let (answer, control) ← send unit.input
    settleUnit ops unit answer control
    return { unit with output := some answer.toList }
  else return unit

/-- The units that need the worker share one exchange (`table_input.rs:363-434`). -/
def sendDirect (units : List (ExchangeUnit K R)) : ExchangeM K R (List (ExchangeUnit K R)) :=
  if units.any (·.isDirect) then do
    openExchange (none, none)
    let units ← units.mapM' (sendUnit ops)
    close
    return units
  else return units

/-- The loop over the followers (`table_input.rs:439-466`); one that finds no entry asks the worker itself. -/
def followUnit (unit : ExchangeUnit K R) : ExchangeM K R (ExchangeUnit K R) :=
  match unit.state with
  | .follower key w => do
    match ← awaitEntry key w with
    | some entry => return { unit with output := some entry.batches }
    | none =>
      let (answer, _) ← exchangeOnce (none, none) unit.input
      return { unit with output := some answer.toList }
  | _ => return unit

/-- What a unit adds to the output (`table_input.rs:469-474`). -/
def ExchangeUnit.batches (unit : ExchangeUnit K R) : List R :=
  match unit.state with
  | .hit batches => batches
  | _ => unit.output.getD []

/-- `run_exchange` (`table_input.rs:118-476`): the answers in the order of the inputs. -/
def runExchange (shapeIneligible : Bool) (inputs : List R) : ExchangeM K R (List R) := do
  let bound ← bindCall
  let ineligible := bound.environmentIneligible || shapeIneligible || bound.secretDependent
  let template ← templateUnless ineligible "table_in_out_batch_v2"
  let claimed ← inputs.mapM' (claimUnit template)
  let revalidations ← claimed.mapM' findStale
  let revalidated ← revalidations.mapM' (revalidateUnit ops function)
  let sent ← sendDirect ops revalidated
  let units ← sent.mapM' followUnit
  return units.flatMap (·.batches)

/-! ## `run_buffered` -/

/-- `BufferedCacheControl` (`table_input.rs:680-683`). -/
inductive BufferedCacheControl
  | consistent (control : Option ExchangeControl)
  | refused

/-- `normalize_buffered_cache_control` (`table_input.rs:685-707`): the streams have to agree on one control. -/
def normalizeBufferedCacheControl (controls : List (Option ExchangeControl)) : Except String BufferedCacheControl :=
  match controls.head? with
  | none => .ok (.consistent none)
  | some first =>
    if controls.all (· == first) then .ok (.consistent first)
    else if controls.any notModified then
      .error s!"VGI buffered function `{function}` mixed not_modified with incompatible finalize cache control"
    else .ok .refused

/-- The closure `run_lifecycle` (`table_input.rs:892-968`): process, combine, finalise. -/
def runLifecycle (inputs : List R) (conditions : Conditions) :
    ExchangeM K R (List R × List (Option ExchangeControl)) := do
  let execution ← outside .bufferingBegin >>= liftExcept
  let states ← inputs.zipIdx.mapM' fun input => outside (.bufferingProcess execution input.1 input.2) >>= liftExcept
  let finalizes ← outside (.bufferingCombine execution states) >>= liftExcept
  let scans ← finalizes.mapM' fun state => outside (.bufferingFinalize execution state conditions) >>= liftExcept
  return (scans.flatMap (·.1), scans.map (·.2))

/-- The lifecycle failed under a claim (`table_input.rs:1060-1087`). -/
def bufferedFailure (f : Nat) (stale : Option (CachedEntry R)) (error : String) : ExchangeM K R (List R) := do
  if ← outside .commitAllowed then
    match stale with
    | some entry =>
      if ← outside (.mayServeOnError entry) then
        stored f
        return entry.batches
      else
        abort f "buffered lifecycle failed"
        throw error
    | none =>
      abort f "buffered lifecycle failed"
      throw error
  else
    abort f "buffered consumer cancelled"
    throw error

/-- A lifecycle answered `not_modified` (`table_input.rs:1110-1150`). -/
def bufferedNotModified (key : K) (f : Nat) (stale : Option (CachedEntry R)) (batches : List R)
    (control : Option ExchangeControl) : ExchangeM K R (List R) :=
  match stale with
  | none => do
    abort f "not_modified without a conditional request"
    throw s!"VGI buffered function `{function}` returned not_modified without a conditional request"
  | some stale =>
    if batches.any (ops.rows · ≠ 0) then do
      abort f "not_modified returned rows"
      throw s!"VGI buffered function `{function}` returned rows and not_modified together"
    else do
      match ← exchangeCacheTtl control key stale.bytes with
      | .ok ttl =>
        outside (.slide key ttl)
        stored f
        return stale.batches
      | .error reason =>
        outside (.remove key)
        abort f s!"revalidation revoked cache: {reason}"
        throw s!"VGI buffered function `{function}` returned not_modified with ineligible cache control: {reason}"

/-- A lifecycle that is over (`table_input.rs:1088-1191`); the guard is asked before the cache is touched. -/
def bufferedSuccess (key : K) (f : Nat) (stale : Option (CachedEntry R)) (batches : List R)
    (controls : List (Option ExchangeControl)) : ExchangeM K R (List R) := do
  if ← outside .commitAllowed then
    -- an error here leaves the flight to its drop
    match ← liftExcept (normalizeBufferedCacheControl function controls) with
    | .refused =>
      outside (.remove key)
      abort f "buffered finalize cache controls disagreed"
      return batches
    | .consistent control =>
      if notModified control then bufferedNotModified ops function key f stale batches control
      else
        match ← exchangeCacheTtl control key (batches.map ops.memorySize).sum with
        | .ok ttl =>
          outside (.insert key batches ttl control)
          stored f
          return batches
        | .error reason =>
          outside (.remove key)
          abort f s!"cache refused buffered result: {reason}"
          return batches
  else
    abort f "buffered consumer cancelled"
    return batches

/-- The producer's arm (`table_input.rs:1048-1192`). -/
def produceBuffered (inputs : List R) (key : K) (f : Nat) : ExchangeM K R (List R) := do
  let stale ← outside (.getForRevalidation key)
  let conditions := (stale.bind (·.etag), stale.bind (·.lastModified))
  match ← captured (runLifecycle inputs conditions) with
  | .ok (batches, controls) => bufferedSuccess ops function key f stale batches controls
  | .error error => bufferedFailure f stale error

/-- The follower's arm (`table_input.rs:1026-1047`). -/
def followBuffered (inputs : List R) (key : K) (w : Nat) : ExchangeM K R (List R) := do
  match ← awaitEntry key w with
  | some entry => return entry.batches
  | none =>
    let (batches, _) ← runLifecycle inputs (none, none)
    return batches

/-- `run_buffered` (`table_input.rs:864-1194`). -/
def runBuffered (sinkOrderDependent : Bool) (inputs : List R) : ExchangeM K R (List R) := do
  let bound ← bindCall
  let ineligible := bound.environmentIneligible || bound.secretDependent || sinkOrderDependent
  match ← templateUnless ineligible "table_buffering_whole_input_v1" with
  | none =>
    let (batches, _) ← runLifecycle inputs (none, none)
    return batches
  | some template =>
    let key ← liftExcept (template.keyForUnorderedInputs inputs)
    match ← outside (.get key) with
    | some entry => return entry.batches
    | none =>
      match ← acquire key with
      | .follower w => followBuffered inputs key w
      | .producer f => produceBuffered ops function inputs key f

/-! ## `run_scalar_exchange` -/

/-- `PER_VALUE_MAX_NEW_STORES_PER_CALL` (`scalar.rs:858`). -/
def perValueMaxNewStoresPerCall : Nat := 256

/-- `materialize_output_row` (`scalar.rs:863-883`): one row of an answer, as a batch of its own. -/
def materializeOutputRow (batch : R) (row : Nat) : Except String R :=
  if row < 2 ^ 32 then ops.take batch [row] else .error "scalar output row index exceeds Arrow's u32 limit"

/-- The closure `direct`. -/
def direct (conditions : Conditions) (input : R) : ExchangeM K R (R × Option ExchangeControl) :=
  exchangeAnswered s!"{function} returned no answer for its input" conditions input

/-- One row of the answer that opted in: the digests seen so far, and how many rows were stored. -/
def warmRow (template : Template K R) (input answer : R) (control : Option ExchangeControl)
    (warmed : List (List UInt8) × Nat) (row : Nat) : ExchangeM K R (List (List UInt8) × Nat) :=
  if perValueMaxNewStoresPerCall ≤ warmed.1.length then return warmed
  else do
    let digest ← liftExcept (template.inputDigest (ops.slice input row 1))
    if digest ∈ warmed.1 then return warmed
    else
      let key := template.keyForDigest digest
      let output ← liftExcept (materializeOutputRow ops answer row)
      match ← exchangeCacheTtl control key (ops.memorySize output) with
      | .ok ttl =>
        outside (.insert key [output] ttl control)
        return (digest :: warmed.1, warmed.2 + 1)
      | .error _ => return (digest :: warmed.1, warmed.2)

/-- Until the function has opted in, one exchange for the whole input. -/
def firstExchange (input : R) : ExchangeM K R R := do
  let (answer, control) ← direct function (none, none) input
  if control.any (·.perValue) && ops.rows answer = ops.rows input && ops.columns answer = 1 then
    match ← cacheKeyTemplate "scalar_per_value_v2" with
    | none => throw "cache availability was checked above"
    | some template =>
      let warmed ← (List.range (ops.rows input)).foldlM (warmRow ops template input answer control) ([], 0)
      if 0 < warmed.2 then outside .notePerValueOptIn
      return answer
  else return answer

/-- `MissClaim` (`scalar.rs:1169-1175`). -/
inductive MissClaim (R : Type)
  | producer (f : Nat) (stale : Option (CachedEntry R))
  | follower (w : Nat)

/-- A distinct input row, and its output once there is one. -/
structure ScalarRow (K R : Type) where
  key : K
  input : R
  output : Option R := none

/-- With its claim, if it is one of the `misses`. -/
structure ScalarUnit (K R : Type) extends ScalarRow K R where
  claim : Option (MissClaim R) := none

/-- The distinct rows by digest, and where each input row finds its own. -/
def collectRow (template : Template K R) (input : R) (found : List (List UInt8 × R) × List Nat) (row : Nat) :
    Except String (List (List UInt8 × R) × List Nat) := do
  let batch := ops.slice input row 1
  let digest ← template.inputDigest batch
  match found.1.findIdx? (·.1 = digest) with
  | some index => return (found.1, found.2 ++ [index])
  | none => return (found.1 ++ [(digest, batch)], found.2 ++ [found.1.length])

/-- The loop over the distinct rows (`scalar.rs:1123-1141`). -/
def lookUp (row : ScalarRow K R) : ExchangeM K R (ScalarRow K R) := do
  match ← outside (.get row.key) with
  | some ⟨[batch], _, _, _⟩ =>
    if ops.rows batch = 1 && ops.columns batch = 1 && ops.hasOutputSchema batch then
      return { row with output := some batch }
    else return row
  | _ => return row

/-- The loop over `misses` (`scalar.rs:1179-1188`). -/
def claimMiss (row : ScalarRow K R) : ExchangeM K R (ScalarUnit K R) :=
  if row.output.isSome then return { row with }
  else do
    match ← acquire row.key with
    | .producer f =>
      let stale ← outside (.getForRevalidation row.key)
      return { row with claim := some (.producer f stale) }
    | .follower w => return { row with claim := some (.follower w) }

/-- The answer to a conditional exchange of one row. -/
def acceptMiss (unit : ScalarUnit K R) (f : Nat) (stale : CachedEntry R) (answer : R)
    (control : Option ExchangeControl) : ExchangeM K R (ScalarUnit K R) :=
  if notModified control then
    if ops.rows answer ≠ 0 then throw s!"VGI scalar `{function}` returned rows and not_modified together"
    else
      match stale.batches with
      | [cached] => do
        match ← exchangeCacheTtl control unit.key stale.bytes with
        | .ok ttl =>
          outside (.slide unit.key ttl)
          stored f
          return { unit with output := some cached }
        | .error reason =>
          outside (.remove unit.key)
          abort f s!"revalidation revoked cache: {reason}"
          throw s!"VGI scalar `{function}` returned not_modified with ineligible cache control: {reason}"
      | _ => do
        -- no output either: the assembly fails
        abort f "revalidation entry was not one batch"
        return unit
  else if ops.rows answer = 1 && ops.columns answer = 1 then do
    let output ← liftExcept (materializeOutputRow ops answer 0)
    match ← exchangeCacheTtl control unit.key (ops.memorySize output) with
    | .ok ttl =>
      if control.any (·.perValue) then
        outside (.insert unit.key [output] ttl control)
        stored f
        return { unit with output := some output }
      else
        outside (.remove unit.key)
        abort f "worker withdrew per-value cache opt-in"
        return { unit with output := some output }
    | .error reason =>
      outside (.remove unit.key)
      abort f s!"cache refused revalidated result: {reason}"
      return { unit with output := some output }
  else
    let rows := ops.rows answer
    let columns := ops.columns answer
    throw (s!"{function} answered {rows} rows and {columns} columns for one conditional scalar input; " ++
      "expected a 1:1, one-column result")

/-- The loop over `revalidations` (`scalar.rs:1193-1315`). -/
def revalidateMiss (unit : ScalarUnit K R) : ExchangeM K R (ScalarUnit K R) :=
  match unit.claim with
  | some (.producer f (some stale)) => do
    match ← captured (direct function (stale.etag, stale.lastModified) unit.input) with
    | .ok (answer, control) => acceptMiss ops function unit f stale answer control
    | .error error =>
      if ← outside (.mayServeOnError stale) then
        match stale.batches with
        | [cached] =>
          stored f
          return { unit with output := some cached }
        | _ =>
          abort f "stale-if-error entry was not one batch"
          throw error
      else throw error
  | _ => return unit

/-- In `producers`: claimed, with nothing to revalidate. -/
def ScalarUnit.isCold (unit : ScalarUnit K R) : Bool :=
  match unit.claim with
  | some (.producer _ none) => true
  | _ => false

/-- One answer row, kept under the key of its input row (`scalar.rs:1359-1398`). -/
def storeMiss (key : K) (f : Nat) (fresh : R) (control : Option ExchangeControl) (row : Nat) : ExchangeM K R PUnit := do
  let output ← liftExcept (materializeOutputRow ops fresh row)
  match ← exchangeCacheTtl control key (ops.memorySize output) with
  | .ok ttl =>
    outside (.insert key [output] ttl control)
    stored f
  | .error reason => abort f s!"cache refused result: {reason}"

/-- The store of one cold row, if it is still tried. -/
def settleMiss (key : K) (f : Nat) (fresh : R) (control : Option ExchangeControl) (row : Nat) (tried : Bool) :
    ExchangeM K R PUnit :=
  if tried then storeMiss ops key f fresh control row
  else abort f (if control.any (·.perValue) then "per-value new-store cap reached"
    else "worker withdrew per-value cache opt-in")

/-- `row` counts the cold units so far, `attempts` those whose store was tried. -/
def settleMisses (fresh : R) (control : Option ExchangeControl) :
    Nat → Nat → List (ScalarUnit K R) → ExchangeM K R (List (ScalarUnit K R))
  | _, _, [] => return []
  | row, attempts, unit :: rest =>
    match unit.claim with
    | some (.producer f none) => do
      let tried := control.any (·.perValue) && attempts < perValueMaxNewStoresPerCall
      settleMiss ops unit.key f fresh control row tried
      let settled ← settleMisses fresh control (row + 1) (if tried then attempts + 1 else attempts) rest
      return { unit with output := some (ops.slice fresh row 1) } :: settled
    | _ => do
      let settled ← settleMisses fresh control row attempts rest
      return unit :: settled

/-- All rows that need the worker in one exchange (`scalar.rs:1316-1411`). -/
def sendMisses (units : List (ScalarUnit K R)) : ExchangeM K R (List (ScalarUnit K R)) :=
  let producers := units.filter (·.isCold)
  if producers.isEmpty then return units
  else do
    let input ← liftExcept (ops.concatInputs (producers.map (·.input)))
    openExchange (none, none)
    match ← send input with
    | (none, _) => throw s!"{function} returned no answer for its input"
    | (some fresh, control) =>
      close
      if ops.rows fresh = producers.length && ops.columns fresh = 1 then settleMisses ops fresh control 0 0 units
      else
        let rows := ops.rows fresh
        let columns := ops.columns fresh
        let asked := producers.length
        throw (s!"{function} answered {rows} rows and {columns} columns for {asked} distinct scalar inputs; " ++
          "expected a 1:1, one-column result")

/-- The loop over the followers (`scalar.rs:1416-1437`); the fallback's answer is not checked for its shape. -/
def followMiss (unit : ScalarUnit K R) : ExchangeM K R (ScalarUnit K R) :=
  match unit.claim with
  | some (.follower w) => do
    match (← awaitEntry unit.key w).map (·.batches) with
    | some [batch] =>
      if ops.rows batch = 1 && ops.columns batch = 1 then return { unit with output := some batch }
      else
        let (answer, _) ← direct function (none, none) unit.input
        return { unit with output := some answer }
    | _ =>
      let (answer, _) ← direct function (none, none) unit.input
      return { unit with output := some answer }
  | _ => return unit

/-- The rows of the call out of those of its distinct inputs (`scalar.rs:1439-1460`). -/
def assembleRows (units : List (ScalarUnit K R)) (rowToUnique : List Nat) : Except String R := do
  let unanswered := s!"{function} per-value cache assembly left an input unanswered"
  let outputs ← units.mapM' fun unit => unit.output.elim (.error unanswered) .ok
  let distinct ← ops.concatOutputs outputs
  ops.gather distinct (rowToUnique.map (· % 2 ^ 32))

/-- Once the function has opted in: one unit for each distinct row. -/
def perValueExchange (input : R) : ExchangeM K R R := do
  match ← cacheKeyTemplate "scalar_per_value_v2" with
  | none => throw "cache availability was checked above"
  | some template =>
    let (uniques, rowToUnique) ←
      liftExcept ((List.range (ops.rows input)).foldlM (collectRow ops template input) ([], []))
    let rows := uniques.map fun unique => { key := template.keyForDigest unique.1, input := unique.2 : ScalarRow K R }
    let probed ← rows.mapM' (lookUp ops)
    let claimed ← probed.mapM' claimMiss
    let revalidated ← claimed.mapM' (revalidateMiss ops function)
    let sent ← sendMisses ops function revalidated
    let answered ← sent.mapM' (followMiss ops function)
    liftExcept (assembleRows ops function answered rowToUnique)

/-- `run_scalar_exchange` (`scalar.rs:960-1461`). -/
def runScalarExchange (cacheable perValueEnabled : Bool) (input : R) : ExchangeM K R R := do
  let bound ← bindCall
  if bound.environmentIneligible || !cacheable || bound.secretDependent || ops.rows input = 0 || !perValueEnabled then
    let (answer, _) ← direct function (none, none) input
    return answer
  else if ← outside .hasPerValueOptIn then perValueExchange ops function input
  else firstExchange ops function input

end Exchange

/-! ## Calls -/

inductive ExchangeCall (R : Type)
  | exchange (ops : ExchangeOps R) (function : String) (shapeIneligible : Bool) (inputs : List R)
  | buffered (ops : ExchangeOps R) (function : String) (sinkOrderDependent : Bool) (inputs : List R)
  | scalar (ops : ExchangeOps R) (function : String) (cacheable perValueEnabled : Bool) (input : R)

def ExchangeCall.body {K R : Type} : ExchangeCall R → ExchangeM K R (List R)
  | .exchange ops function shapeIneligible inputs => Exchange.runExchange ops function shapeIneligible inputs
  | .buffered ops function sinkOrderDependent inputs => Exchange.runBuffered ops function sinkOrderDependent inputs
  | .scalar ops function cacheable perValueEnabled input => do
    let output ← Exchange.runScalarExchange ops function cacheable perValueEnabled input
    return [output]

end VgiDatafusion
