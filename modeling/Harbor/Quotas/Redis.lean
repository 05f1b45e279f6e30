import Harbor.Quotas.Database

/-!
# Requests through Redis

`Controller.Request` with the Redis provider.  `updateUsageByRedis` watches the
key of the quota, decodes what is cached there or, if nothing is, calculates the
usage, and sets the new usage in a transaction that goes through only if the key
has not changed since.  Calls of one process that miss the key together share
one calculation (`singleflight`), and with it one `Quota` object.

The background flush and the updates of a quota through the API work on the
same key and the same rows, so their operations are here too; the programs are
in `Harbor.Quotas.Flush`.

`RedisWorld` keeps the objects in a heap, with the last client that stored to
each of them.  `log` lists what happened to the key, newest first.
-/

namespace Harbor.Quotas

open Harbor.Concurrency

/-- `cache.Codec`: what is encoded can be decoded again. -/
structure Codec where
  Bytes : Type
  encode : Quota → Bytes
  decode : Bytes → Option Quota
  decode_encode : ∀ quota, decode (encode quota) = some quota

/-! ## The world -/

/-- What happens to the cached key. -/
inductive Event
  | set (entry : Entry)
  | expired

/-- An object on the heap, with the client that stored to it last. -/
structure Cell (Client : Type) where
  quota : Quota
  writer : Option Client := none

structure RedisWorld (codec : Codec) (Client : Type) where
  rows : QuotaRows
  key : Option codec.Bytes := none
  /-- how often the key has changed -/
  changes : ℕ := 0
  heap : List (Cell Client) := []
  /-- the calculation that each process is waiting for -/
  flights : ℕ → Option ℕ := fun _ => none
  landed : ℕ → Option (Except QuotaFailure ℕ) := fun _ => none
  nextFlight : ℕ := 0
  log : List Event := []
  /-- the updates through the API that are in progress -/
  updating : List ℕ := []
  /-- whether the last of them began while another one was in progress -/
  overlapped : Bool := false
  /-- the limits that the last update through the API has reported as set -/
  promise : Option ResourceList := none

/-! ## Operations -/

inductive RedisOp (codec : Codec) (Client : Type)
  | connect
  | watch
  | get
  | scan
  | join (process : ℕ)
  | land (process flight : ℕ) (result : Except QuotaFailure ℕ)
  | await (flight : ℕ)
  | readQuota
  | readUsage (compared : Option (Quota × ResourceText))
  | calculateUsage
  | alloc (quota : Quota)
  | loadHard (address : ℕ)
  | loadUsed (address : ℕ)
  | storeUsed (client : Client) (address : ℕ) (used : ResourceList)
  | encode (client : Client) (address : ℕ)
  | exec (watched : ℕ) (value : codec.Bytes) (entry : Entry)
  | expire
  | runF
  | updateRows (quota : Quota)
  | beginUpdate (update : ℕ)
  | endUpdate (update : ℕ) (hardLimits : ResourceList) (result : Except QuotaFailure Unit)

/-- How a process joins a calculation: it leads it or waits for it. -/
inductive Joined
  | lead (flight : ℕ)
  | wait (flight : ℕ)

variable (update : ℕ)

section

variable {codec : Codec} {Client : Type}

def RedisReply : RedisOp codec Client → Type
  | .connect => Except QuotaFailure Unit
  | .watch => Except QuotaFailure ℕ
  | .get => Except QuotaFailure (Option codec.Bytes)
  | .scan => Except QuotaFailure Bool
  | .join _ => Joined
  | .land _ _ _ => Unit
  | .await _ => Except QuotaFailure ℕ
  | .readQuota => Except QuotaFailure (ResourceText × ℕ)
  | .readUsage _ => Except QuotaFailure (ResourceText × ℕ)
  | .calculateUsage => Except QuotaFailure ResourceList
  | .alloc _ => ℕ
  | .loadHard _ => ResourceText
  | .loadUsed _ => ResourceText
  | .storeUsed _ _ _ => Unit
  | .encode _ _ => Except QuotaFailure codec.Bytes
  | .exec _ _ _ => Except QuotaFailure Unit
  | .expire => Unit
  | .runF => Except QuotaFailure Unit
  | .updateRows _ => Except QuotaFailure Unit
  | .beginUpdate _ => Unit
  | .endUpdate _ _ _ => Unit

abbrev RedisProgram (codec : Codec) (Client Result : Type) : Type :=
  Program (RedisOp codec Client) RedisReply Result

namespace RedisWorld

variable (world : RedisWorld codec Client)

/-- A process starts a calculation. -/
def takeOff (process : ℕ) : RedisWorld codec Client :=
  { world with
    flights := Function.update world.flights process (some world.nextFlight)
    nextFlight := world.nextFlight + 1 }

/-- `singleflight`: join the calculation of the process, or start one. -/
def join (process : ℕ) : RedisWorld codec Client × Joined :=
  match world.flights process with
  | some flight => (world, .wait flight)
  | none => (world.takeOff process, .lead world.nextFlight)

/-- The calculation is over, and whoever waits for it gets the result. -/
def land (process flight : ℕ) (result : Except QuotaFailure ℕ) : RedisWorld codec Client :=
  { world with
    flights := Function.update world.flights process none
    landed := Function.update world.landed flight (some result) }

/-- `SetUsed` on an object. -/
def storeUsed (client : Client) (address : ℕ) (used : ResourceList) : RedisWorld codec Client :=
  { world with
    heap := world.heap.modify address fun cell =>
      { quota := cell.quota.setUsed used, writer := some client } }

/-- `SET` in a transaction that goes through. -/
def set (value : codec.Bytes) (entry : Entry) : RedisWorld codec Client :=
  { world with
    key := some value
    changes := world.changes + 1
    log := .set entry :: world.log }

def expire : RedisWorld codec Client :=
  { world with
    key := none
    changes := world.changes + 1
    log := .expired :: world.log }

def beginUpdate : RedisWorld codec Client :=
  { world with
    updating := update :: world.updating
    overlapped := !world.updating.isEmpty
    promise := none }

/-- An update through the API returns.  If it has met no other one and
succeeded, it has promised its limits. -/
def endUpdate (hardLimits : ResourceList) (result : Except QuotaFailure Unit) :
    RedisWorld codec Client :=
  { world with
    updating := world.updating.erase update
    promise := if result.isOk ∧ ¬ world.overlapped then some hardLimits else none }

end RedisWorld

/-- How an operation ends, unless it is refused. -/
inductive RedisChoice
  | ok
  | fail (err : QuotaFailure)

/-- The reply of an operation that only reads. -/
def RedisChoice.reply {α : Type} (value : α) : RedisChoice → Except QuotaFailure α
  | .ok => .ok value
  | .fail err => .error err

/-- What each operation does, when the calculated usage is `calculated`. -/
def redisSem (calculated : ResourceList) :
    Semantics (RedisWorld codec Client) (RedisOp codec Client) RedisReply RedisChoice
  | world, .connect, choice => some (world, choice.reply ())
  | world, .watch, choice => some (world, choice.reply world.changes)
  | world, .get, choice => some (world, choice.reply world.key)
  | world, .scan, choice => some (world, choice.reply world.key.isSome)
  | world, .join process, _ => some (world.join process)
  | world, .land process flight result, _ => some (world.land process flight result, ())
  | world, .await flight, _ => (world.landed flight).map fun result => (world, result)
  | world, .readQuota, choice =>
    some (world, choice.reply (world.rows.hard, world.rows.hardVersion))
  | world, .readUsage _, choice =>
    some (world, choice.reply (world.rows.used, world.rows.usedVersion))
  | world, .calculateUsage, choice => some (world, choice.reply calculated)
  | world, .alloc quota, _ =>
    some ({ world with heap := world.heap ++ [{ quota := quota }] }, world.heap.length)
  | world, .loadHard address, _ =>
    (world.heap[address]?).map fun cell => (world, cell.quota.hard)
  | world, .loadUsed address, _ =>
    (world.heap[address]?).map fun cell => (world, cell.quota.used)
  | world, .storeUsed client address used, _ => some (world.storeUsed client address used, ())
  | world, .encode _ address, choice =>
    (world.heap[address]?).map fun cell => (world, choice.reply (codec.encode cell.quota))
  | world, .exec watched value entry, .ok =>
    if world.changes = watched then some (world.set value entry, .ok ())
    else some (world, .error .txFailed)
  | world, .exec _ _ _, .fail err => some (world, .error err)
  | world, .expire, _ => if world.key.isSome then some (world.expire, ()) else none
  | world, .runF, choice => some (world, choice.reply ())
  | world, .updateRows quota, .ok =>
    match world.rows.update quota with
    | .ok rows => some ({ world with rows := rows }, .ok ())
    | .error err => some (world, .error err)
  | world, .updateRows _, .fail err => some (world, .error err)
  | world, .beginUpdate update, _ => some (world.beginUpdate update, ())
  | world, .endUpdate update hardLimits result, _ =>
    some (world.endUpdate update hardLimits result, ())

end

namespace Redis

variable {codec : Codec} {Client : Type}

abbrev connect : RedisProgram codec Client (Except QuotaFailure Unit) :=
  .perform RedisOp.connect

abbrev watch : RedisProgram codec Client (Except QuotaFailure ℕ) :=
  .perform RedisOp.watch

abbrev get : RedisProgram codec Client (Except QuotaFailure (Option codec.Bytes)) :=
  .perform RedisOp.get

abbrev scan : RedisProgram codec Client (Except QuotaFailure Bool) :=
  .perform RedisOp.scan

abbrev join (process : ℕ) : RedisProgram codec Client Joined :=
  .perform (RedisOp.join process)

abbrev land (process flight : ℕ) (result : Except QuotaFailure ℕ) :
    RedisProgram codec Client Unit :=
  .perform (RedisOp.land process flight result)

abbrev await (flight : ℕ) : RedisProgram codec Client (Except QuotaFailure ℕ) :=
  .perform (RedisOp.await flight)

abbrev readQuota : RedisProgram codec Client (Except QuotaFailure (ResourceText × ℕ)) :=
  .perform RedisOp.readQuota

abbrev readUsage (compared : Option (Quota × ResourceText)) :
    RedisProgram codec Client (Except QuotaFailure (ResourceText × ℕ)) :=
  .perform (RedisOp.readUsage compared)

abbrev calculateUsage : RedisProgram codec Client (Except QuotaFailure ResourceList) :=
  .perform RedisOp.calculateUsage

abbrev alloc (quota : Quota) : RedisProgram codec Client ℕ :=
  .perform (RedisOp.alloc quota)

abbrev loadHard (address : ℕ) : RedisProgram codec Client ResourceText :=
  .perform (RedisOp.loadHard address)

abbrev loadUsed (address : ℕ) : RedisProgram codec Client ResourceText :=
  .perform (RedisOp.loadUsed address)

abbrev storeUsed (client : Client) (address : ℕ) (used : ResourceList) :
    RedisProgram codec Client Unit :=
  .perform (RedisOp.storeUsed client address used)

abbrev encode (client : Client) (address : ℕ) :
    RedisProgram codec Client (Except QuotaFailure codec.Bytes) :=
  .perform (RedisOp.encode client address)

abbrev exec (watched : ℕ) (value : codec.Bytes) (entry : Entry) :
    RedisProgram codec Client (Except QuotaFailure Unit) :=
  .perform (RedisOp.exec watched value entry)

abbrev expire : RedisProgram codec Client Unit :=
  .perform RedisOp.expire

abbrev runF : RedisProgram codec Client (Except QuotaFailure Unit) :=
  .perform RedisOp.runF

abbrev updateRows (quota : Quota) : RedisProgram codec Client (Except QuotaFailure Unit) :=
  .perform (RedisOp.updateRows quota)

abbrev beginUpdate : RedisProgram codec Client Unit :=
  .perform (RedisOp.beginUpdate update)

abbrev endUpdate (hardLimits : ResourceList) (result : Except QuotaFailure Unit) :
    RedisProgram codec Client Unit :=
  .perform (RedisOp.endUpdate update hardLimits result)

end Redis

/-! ## Programs -/

section Programs

variable {codec : Codec} {Client : Type}

/-- `calcQuota`.  The object is only shared once its usage is set. -/
def calcQuota : RedisProgram codec Client (Except QuotaFailure ℕ) := do
  match ← Redis.readQuota with
  | .error err => return .error err
  | .ok (hard, hardVersion) => do
    match ← Redis.readUsage none with
    | .error err => return .error err
    | .ok (used, usedVersion) => do
      match ← Redis.calculateUsage with
      | .error err => return .error err
      | .ok newUsed => do
        let address ← Redis.alloc (Quota.setUsed
          { hard := hard, used := used, hardVersion := hardVersion
            usedVersion := usedVersion } newUsed)
        return .ok address

/-- `singleflight.Group.Do` for `calcQuota`. -/
def sharedCalcQuota (process : ℕ) : RedisProgram codec Client (Except QuotaFailure ℕ) := do
  match ← Redis.join process with
  | .lead flight => do
    let result ← calcQuota
    Redis.land process flight result
    return result
  | .wait flight => Redis.await flight

variable (client : Client)

/-- The part of `updateUsageByRedis` after the new usage is computed. -/
def writeCached (entry : Entry) (watched address : ℕ) (newUsed : ResourceList) :
    RedisProgram codec Client Attempt := do
  Redis.storeUsed client address newUsed
  match ← Redis.encode client address with
  | .error err => return .abort err
  | .ok value => do
    match ← Redis.exec watched value entry with
    | .ok () => return .done
    | .error err => if err = .txFailed then return .again err else return .abort err

/-- The part of `updateUsageByRedis` that works on the object at `address`. -/
def changeCached (entry : Entry) (watched address : ℕ) : RedisProgram codec Client Attempt := do
  match ← Redis.loadHard address with
  | none => return .abort .malformed
  | some hardLimits => do
    match ← Redis.loadUsed address with
    | none => return .abort .malformed
    | some used =>
      match entry.op hardLimits used with
      | .error err => return .abort err
      | .ok newUsed => writeCached client entry watched address newUsed

/-- The object that `updateUsageByRedis` works on: the shared one if nothing is
cached, and one of its own otherwise. -/
def fetchCached (process : ℕ) :
    Option codec.Bytes → RedisProgram codec Client (Except QuotaFailure ℕ)
  | none => sharedCalcQuota process
  | some data =>
    match codec.decode data with
    | none => return .error .malformed
    | some quota => do
      let address ← Redis.alloc quota
      return .ok address

/-- `updateUsageByRedis`.  An error of `WATCH` itself is not final. -/
def updateUsageByRedis (process : ℕ) (entry : Entry) : RedisProgram codec Client Attempt := do
  match ← Redis.connect with
  | .error err => return .abort err
  | .ok () => do
    match ← Redis.watch with
    | .error err => return .again err
    | .ok watched => do
      match ← Redis.get with
      | .error err => return .abort err
      | .ok data => do
        match ← fetchCached process data with
        | .error err => return .abort err
        | .ok address => changeCached client entry watched address

/-- The part of `Controller.Request` after the reservation. -/
def runOrRollbackByRedis (process : ℕ) (resources : ResourceList) (rollbackFuel : ℕ) :
    RedisProgram codec Client (Except QuotaFailure Unit) := do
  match ← Redis.runF with
  | .ok () => return .ok ()
  | .error err => do
    let _ ← retry (updateUsageByRedis client process (.rollback resources)) rollbackFuel
    return .error err

/-- `Controller.Request`, with what the timeouts of its two loops allow. -/
def requestByRedis (process : ℕ) (resources : ResourceList) (reserveFuel rollbackFuel : ℕ) :
    RedisProgram codec Client (Except QuotaFailure Unit) :=
  if resources.entries = [] then Redis.runF
  else do
    match ← retry (updateUsageByRedis client process (.reserve resources)) reserveFuel with
    | .error err => return .error err
    | .ok () => runOrRollbackByRedis client process resources rollbackFuel

/-- The key expires up to `count` times. -/
def expireKey : ℕ → RedisProgram codec Client (Except QuotaFailure Unit)
  | 0 => return .ok ()
  | count + 1 => do
    Redis.expire
    expireKey count

end Programs

end Harbor.Quotas
