import Harbor.Concurrency.RelyGuarantee

/-!
# Sessions and their time to live

The session provider keeps one Redis key for every session.  A session is read at the start of
a request and released at its end; `SessionRegenerate` moves it to a new key after a login, and
`SessionDestroy` deletes it at a logout.  Every method is a program of Redis commands, any
number of requests run at once, and time may pass before every command.

A release writes the session with a new time to live, or, for a request that is marked to skip
the renewal, with the one that the key has.  A key that is gone has none to keep: a release
that does not ask for the key to be present then stores a session that never expires.
-/

namespace Harbor.Sessions

open Harbor.Concurrency

/-! ## Redis -/

/-- The value of a key and its time to live in milliseconds, if it has one. -/
structure Entry where
  value : String
  ttl : Option ℕ
  deriving DecidableEq, Repr

abbrev Keys := String → Option Entry

/-- The keys after some milliseconds. -/
def elapse (time : ℕ) (keys : Keys) : Keys := fun key =>
  (keys key).bind fun entry =>
    match entry.ttl with
    | none => some entry
    | some ttl => if ttl ≤ time then none else some { entry with ttl := some (ttl - time) }

def keepTTL : Int64 := -1

variable (duration : Int64)

/-- A positive duration as the client sends it with `SET`, at least one millisecond. -/
def milliseconds : ℕ :=
  max 1 (duration.toInt / 1000000).toNat

/-- A positive duration as the client sends it with `EXPIRE`, at least one second. -/
def wholeSeconds : ℕ :=
  1000 * max 1 (duration.toInt / 1000000000).toNat

inductive Op
  | get (key : String)
  | set (key value : String) (expiration : Int64)
  | setXX (key value : String) (expiration : Int64)
  | contains (key : String)
  | rename (key newKey : String)
  | expire (key : String) (expiration : Int64)
  | delete (key : String)
  deriving DecidableEq, Repr

def Reply : Op → Type
  | .get _ => Option String
  | .contains _ => Bool
  | _ => Unit

/-- What a command does not determine: the time that passes before it, and whether it gets
through to the server. -/
structure Choice where
  elapsed : ℕ := 0
  lost : Bool := false
  deriving DecidableEq, Repr

variable (keys : Keys)

/-- The key is written with the time to live of the client's argument. -/
def write (key value : String) (expiration : Int64) : Keys :=
  Function.update keys key (some
    { value := value
      ttl :=
        if 0 < expiration then some (milliseconds expiration)
        else if expiration = keepTTL then (keys key).bind Entry.ttl
        else none })

/-- A command that reaches the server. -/
def Op.apply : (op : Op) → Keys × Reply op
  | .get key => (keys, (keys key).map Entry.value)
  | .set key value expiration => (write keys key value expiration, ())
  | .setXX key value expiration =>
    -- an expiration below zero that is not `keepTTL` is refused
    (if (keys key).isSome ∧ (0 ≤ expiration ∨ expiration = keepTTL) then
      write keys key value expiration else keys, ())
  | .contains key => (keys, (keys key).isSome)
  | .rename key newKey =>
    (match keys key with
    | none => keys
    | some entry => Function.update (Function.update keys key none) newKey (some entry), ())
  | .expire key expiration =>
    (if 0 < expiration then
      Function.update keys key
        ((keys key).map fun entry => { entry with ttl := some (wholeSeconds expiration) })
    else Function.update keys key none, ())
  | .delete key => (Function.update keys key none, ())

/-- The reply to a command that gets lost, as the cache of the provider reads it. -/
def Op.lostReply : (op : Op) → Reply op
  | .get _ => (none : Option String)
  | .contains _ => false
  | .set .. | .setXX .. | .rename .. | .expire .. | .delete _ => ()

def sem : Semantics Keys Op Reply Choice := fun keys op choice =>
  let keys := elapse choice.elapsed keys
  some (if choice.lost then (keys, op.lostReply) else op.apply keys)

/-! ## The provider -/

/-- How the values of a session are turned into text and back. -/
structure Codec where
  Values : Type
  empty : Values
  encode : Values → Option String
  decode : String → Option Values

/-- The session that a request holds. -/
structure Store (codec : Codec) where
  sid : String
  values : codec.Values

/-- `systemSessionTimeout`: the configured minutes, unless there are none. -/
def systemSessionTimeout (sysTimeout beegoTimeout : Int64) : Int64 :=
  if 0 < sysTimeout then sysTimeout * 60000000000 else beegoTimeout

section Provider

variable (codec : Codec) (maxlifetime : Int64)

def releaseSession (store : Store codec) (skipSessionRenewal : Bool) (sysTimeout : Int64)
    (requirePresent : Bool) : Program Op Reply Unit :=
  match codec.encode store.values with
  | none => .ret ()
  | some text =>
    let expiration :=
      if skipSessionRenewal then keepTTL else systemSessionTimeout sysTimeout maxlifetime
    if requirePresent then .call (.setXX store.sid text expiration) fun _ => .ret ()
    else .call (.set store.sid text expiration) fun _ => .ret ()

/-- `SessionRead`; a session that is not there is empty. -/
def sessionRead (sid : String) : Program Op Reply (Option (Store codec)) :=
  .call (.get sid) fun (text : Option String) =>
    match text with
    | none => .ret (some ⟨sid, codec.empty⟩)
    | some text => .ret ((codec.decode text).map (⟨sid, ·⟩))

def sessionRegenerate (oldsid sid : String) (sysTimeout : Int64) :
    Program Op Reply (Option (Store codec)) :=
  let maxlifetime := systemSessionTimeout sysTimeout maxlifetime
  .call (.contains oldsid) fun (isExist : Bool) =>
    if isExist then
      .call (.rename oldsid sid) fun _ =>
      .call (.expire sid maxlifetime) fun _ => sessionRead codec sid
    else
      match codec.encode codec.empty with
      | none => sessionRead codec sid
      | some text => .call (.set sid text maxlifetime) fun _ => sessionRead codec sid

def sessionDestroy (sid : String) : Program Op Reply Unit :=
  .call (.delete sid) fun _ => .ret ()

end Provider

/-! ## Requests -/

/-- A call of a request.  A store may be released whatever has been done to its values, and the
session timeout is the one that is configured at the time of the call. -/
inductive Call (codec : Codec)
  | read (sid : String)
  | release (store : Store codec) (skipSessionRenewal : Bool) (sysTimeout : Int64)
  | releaseIfPresent (store : Store codec) (skipSessionRenewal : Bool) (sysTimeout : Int64)
  | regenerate (oldsid sid : String) (sysTimeout : Int64)
  | destroy (sid : String)

def CallReply {codec : Codec} : Call codec → Type
  | .read _ | .regenerate .. => Option (Store codec)
  | _ => Unit

variable {codec : Codec}

/-- A request: calls, each of which may depend on what the calls before it returned. -/
abbrev Request (codec : Codec) := Program (Call codec) CallReply Unit

variable (maxlifetime : Int64)

def Call.program : (call : Call codec) → Program Op Reply (CallReply call)
  | .read sid => sessionRead codec sid
  | .release store skip sysTimeout => releaseSession codec maxlifetime store skip sysTimeout false
  | .releaseIfPresent store skip sysTimeout =>
    releaseSession codec maxlifetime store skip sysTimeout true
  | .regenerate oldsid sid sysTimeout => sessionRegenerate codec maxlifetime oldsid sid sysTimeout
  | .destroy sid => sessionDestroy sid

/-- The commands of a request. -/
def Request.commands (maxlifetime : Int64) : Request codec → Program Op Reply Unit
  | .ret _ => .ret ()
  | .call op next => op.program maxlifetime >>= fun reply => commands maxlifetime (next reply)

/-- The session timeout that a call reads is positive. -/
def Call.TimeoutPositive : Call codec → Prop
  | .release _ _ sysTimeout | .releaseIfPresent _ _ sysTimeout | .regenerate _ _ sysTimeout =>
    0 < systemSessionTimeout sysTimeout maxlifetime
  | _ => True

/-- Any number of requests about to start. -/
def requestPool {Thread : Type} (requests : Thread → Request codec) (keys : Keys) :
    Pool Keys Op Reply Thread Unit where
  world := keys
  threads thread := Request.commands maxlifetime (requests thread)

/-! ## What a command does to the times to live -/

/-- Every key has a positive time to live. -/
def Expires : Prop :=
  ∀ key entry, keys key = some entry → ∃ ttl, entry.ttl = some ttl ∧ 0 < ttl

/-- The expiration of the command is positive or that of the key. -/
def Op.WellTimed : Op → Prop
  | .set _ _ expiration | .setXX _ _ expiration => 0 < expiration ∨ expiration = keepTTL
  | .expire _ expiration => 0 < expiration
  | _ => True

/-- If the command keeps a time to live, the key is there. -/
def Op.FindsKey : Op → Prop
  | .set key _ expiration => expiration = keepTTL → (keys key).isSome
  | _ => True

section Commands

variable {keys : Keys} {key value : String} {expiration : Int64}

theorem Expires.elapse (h : Expires keys) (time : ℕ) : Expires (elapse time keys) := by
  intro key entry hentry
  obtain ⟨before, hbefore, hafter⟩ := Option.bind_eq_some_iff.mp hentry
  obtain ⟨ttl, httl, hpos⟩ := h key before hbefore
  simp only [httl] at hafter
  split_ifs at hafter with htime
  cases hafter
  exact ⟨ttl - time, rfl, by omega⟩

theorem Expires.update (h : Expires keys) {entry : Option Entry}
    (hentry : ∀ e, entry = some e → ∃ ttl, e.ttl = some ttl ∧ 0 < ttl) :
    Expires (Function.update keys key entry) := by
  intro other e hother
  by_cases heq : other = key
  · subst heq
    rw [Function.update_self] at hother
    exact hentry e hother
  · rw [Function.update_of_ne heq] at hother
    exact h other e hother

theorem milliseconds_pos : 0 < milliseconds duration :=
  Nat.lt_of_lt_of_le Nat.one_pos (Nat.le_max_left _ _)

theorem wholeSeconds_pos : 0 < wholeSeconds duration :=
  Nat.mul_pos (by decide) (Nat.lt_of_lt_of_le Nat.one_pos (Nat.le_max_left _ _))

/-- A write keeps the property exactly if it sets a time to live or finds one. -/
theorem expires_write_iff (h : Expires keys) (htimed : 0 < expiration ∨ expiration = keepTTL) :
    Expires (write keys key value expiration) ↔ (expiration = keepTTL → (keys key).isSome) := by
  constructor
  · rintro hexpires rfl
    obtain ⟨ttl, httl, -⟩ := hexpires key _ (Function.update_self _ _ _)
    rw [if_neg (by decide), if_pos rfl] at httl
    obtain ⟨entry, hentry, -⟩ := Option.bind_eq_some_iff.mp httl
    rw [hentry]
    rfl
  · intro hthere
    refine h.update ?_
    rintro _ ⟨⟩
    by_cases hpos : 0 < expiration
    · exact ⟨_, if_pos hpos, milliseconds_pos expiration⟩
    · have hkeep := htimed.resolve_left hpos
      obtain ⟨entry, hentry⟩ := Option.isSome_iff_exists.mp (hthere hkeep)
      obtain ⟨ttl, httl, hlive⟩ := h key entry hentry
      refine ⟨ttl, ?_, hlive⟩
      simp only [if_neg hpos, if_pos hkeep, hentry, Option.bind_some, httl]

theorem expires_apply_iff (h : Expires keys) {op : Op} (htimed : op.WellTimed) :
    Expires (op.apply keys).1 ↔ op.FindsKey keys := by
  cases op with
  | get key => exact iff_of_true h trivial
  | set key value expiration => exact expires_write_iff h htimed
  | setXX key value expiration =>
    refine iff_of_true ?_ trivial
    simp only [Op.apply]
    split_ifs with hthere
    · exact (expires_write_iff h htimed).mpr fun _ => hthere.1
    · exact h
  | contains key => exact iff_of_true h trivial
  | rename key newKey =>
    refine iff_of_true ?_ trivial
    simp only [Op.apply]
    cases hentry : keys key with
    | none => exact h
    | some entry =>
      refine (h.update (by simp)).update ?_
      rintro _ ⟨⟩
      exact h key entry hentry
  | expire key expiration =>
    refine iff_of_true ?_ trivial
    simp only [Op.apply]
    have hpos : 0 < expiration := htimed
    rw [if_pos hpos]
    refine h.update fun entry hentry => ?_
    obtain ⟨before, -, rfl⟩ := Option.map_eq_some_iff.mp hentry
    exact ⟨_, rfl, wholeSeconds_pos expiration⟩
  | delete key => exact iff_of_true (h.update (by simp)) trivial

end Commands

/-! ## Runs -/

section Runs

variable {maxlifetime : Int64}

theorem Call.uses_program {call : Call codec} (h : call.TimeoutPositive maxlifetime) :
    (call.program maxlifetime).Uses Op.WellTimed := by
  have hread : ∀ sid, (sessionRead codec sid).Uses Op.WellTimed := by
    intro sid
    refine ⟨trivial, fun (text : Option String) => ?_⟩
    cases text with
    | none | some text => trivial
  have hrelease : ∀ store skip sysTimeout requirePresent,
      0 < systemSessionTimeout sysTimeout maxlifetime →
        (releaseSession codec maxlifetime store skip sysTimeout requirePresent).Uses
          Op.WellTimed := by
    intro store skip sysTimeout requirePresent hpos
    have htimed : 0 < (if skip then keepTTL else systemSessionTimeout sysTimeout maxlifetime) ∨
        (if skip then keepTTL else systemSessionTimeout sysTimeout maxlifetime) = keepTTL := by
      cases skip with
      | true => exact .inr rfl
      | false => exact .inl hpos
    unfold releaseSession
    cases codec.encode store.values with
    | none => trivial
    | some text =>
      cases requirePresent with
      | true | false => exact ⟨htimed, fun _ => trivial⟩
  cases call with
  | read sid => exact hread sid
  | release store skip sysTimeout => exact hrelease store skip sysTimeout false h
  | releaseIfPresent store skip sysTimeout => exact hrelease store skip sysTimeout true h
  | regenerate oldsid sid sysTimeout =>
    refine ⟨trivial, fun (isExist : Bool) => ?_⟩
    cases isExist with
    | true => exact ⟨trivial, fun _ => ⟨h, fun _ => hread sid⟩⟩
    | false =>
      cases codec.encode codec.empty with
      | none => exact hread sid
      | some text => exact ⟨.inl h, fun _ => hread sid⟩
  | destroy sid => exact ⟨trivial, fun _ => trivial⟩

theorem Request.uses_commands {request : Request codec}
    (h : request.Uses (Call.TimeoutPositive maxlifetime)) :
    (Request.commands maxlifetime request).Uses Op.WellTimed := by
  induction request with
  | ret result => trivial
  | call op next ih =>
    exact Program.Uses.bind (Call.uses_program h.1) fun reply => ih reply (h.2 reply)

/-- The command finds the key whose time to live it keeps, unless it gets lost. -/
def KeepsKnownTTL (op : Op) (choice : Choice) : Prop :=
  choice.lost = false → op.FindsKey (elapse choice.elapsed keys)

theorem expires_sem_iff {keys after : Keys} (h : Expires keys) {op : Op} (htimed : op.WellTimed)
    {choice : Choice} {reply : Reply op} (hsem : sem keys op choice = some (after, reply)) :
    Expires after ↔ KeepsKnownTTL keys op choice := by
  have hlater := h.elapse choice.elapsed
  unfold sem at hsem
  unfold KeepsKnownTTL
  cases hlost : choice.lost with
  | true =>
    rw [hlost] at hsem
    cases hsem
    exact iff_of_true hlater (fun hfalse => nomatch hfalse)
  | false =>
    rw [hlost] at hsem
    have hafter : after = (op.apply (elapse choice.elapsed keys)).1 :=
      congrArg Prod.fst (Option.some.inj hsem).symm
    rw [hafter, expires_apply_iff hlater htimed]
    exact ⟨fun hfinds _ => hfinds, fun hfinds => hfinds rfl⟩

end Runs

/-- In every run of any requests with positive timeouts, all keys have a positive time to live
in every state exactly if every release that keeps the time to live, and does not ask for the key
to be present, finds its key. -/
theorem sessions_expire_iff {Thread : Type} [DecidableEq Thread] (maxlifetime : Int64)
    (requests : Thread → Request codec)
    (hpositive : ∀ thread, (requests thread).Uses (Call.TimeoutPositive maxlifetime))
    (keys : Keys) (hkeys : Expires keys) (actions : List (Thread × Choice)) :
    EveryStep (Pool.step sem) (fun _ _ after => Expires after.world)
        (requestPool maxlifetime requests keys) actions ↔
      EveryStep (Pool.step sem) (Pool.Admits KeepsKnownTTL)
        (requestPool maxlifetime requests keys) actions := by
  have huses : EveryStep (Pool.step sem) (fun before action after => ∃ op reply,
      before.nextOp action.1 = some op ∧ op.WellTimed ∧
        sem before.world op action.2 = some (after.world, reply))
      (requestPool maxlifetime requests keys) actions :=
    Pool.uses_exec (P := fun _ => Op.WellTimed) fun thread =>
      Request.uses_commands (hpositive thread)
  constructor
  · intro hexpires
    refine everyStep_of_invariant (fun pool => Expires pool.world) ?_ hkeys (hexpires.and huses)
    rintro before action after hbefore - ⟨hafter, op, reply, hop, htimed, hsem⟩
    exact ⟨hafter, Pool.admits_of_nextOp hop ((expires_sem_iff hbefore htimed hsem).mp hafter)⟩
  · intro hadmits
    refine everyStep_of_invariant (fun pool => Expires pool.world) ?_ hkeys (hadmits.and huses)
    rintro before action after hbefore - ⟨hallows, op, reply, hop, htimed, hsem⟩
    have hafter := (expires_sem_iff hbefore htimed hsem).mpr (hallows op hop)
    exact ⟨hafter, hafter⟩

def plainText : Codec where
  Values := String
  empty := ""
  encode := some
  decode := some

/-- A request that polls in the background: it reads the session and releases it, without
renewing it. -/
def poll (sid : String) : Request plainText :=
  .call (.read sid) fun (store : Option (Store plainText)) =>
    match store with
    | none => .ret ()
    | some store => .call (.release store true 30) fun _ => .ret ()

theorem poll_positive (sid : String) : (poll sid).Uses (Call.TimeoutPositive 0) := by
  refine ⟨trivial, fun (store : Option (Store plainText)) => ?_⟩
  cases store with
  | none => trivial
  | some store =>
    have hpos : 0 < systemSessionTimeout 30 0 := by decide
    exact ⟨hpos, fun _ => trivial⟩

/-- One session that expires in a second. -/
def loggedIn : Keys := fun key => if key = "sid" then some ⟨"user", some 1000⟩ else none

theorem loggedIn_expires : Expires loggedIn := by
  intro key entry hentry
  unfold loggedIn at hentry
  split_ifs at hentry
  cases hentry
  exact ⟨1000, rfl, by decide⟩

theorem sessions_expire_iff_polling :
    EveryStep (Pool.step sem) (fun _ _ after => Expires after.world)
      (requestPool 0 (fun _ : Unit => poll "sid") loggedIn)
      [((), { elapsed := 400 }), ((), { elapsed := 400 })] := by
  refine (sessions_expire_iff 0 _ (fun _ => poll_positive "sid") loggedIn loggedIn_expires _).mpr ?_
  refine everyStep_cons rfl ?_ (everyStep_cons rfl ?_ trivial)
  · exact Pool.admits_of_nextOp rfl fun _ => trivial
  · exact Pool.admits_of_nextOp rfl fun _ _ => rfl

/-- The session expires while it is polled, and comes back to stay. -/
theorem polled_session_stays : ∃ final,
    exec (Pool.step sem) (requestPool 0 (fun _ : Unit => poll "sid") loggedIn)
      [((), { elapsed := 400 }), ((), { elapsed := 600 })] = some final ∧
    final.world "sid" = some ⟨"user", none⟩ ∧ ¬ Expires final.world := by
  refine ⟨_, rfl, rfl, fun hexpires => ?_⟩
  obtain ⟨ttl, httl, -⟩ := hexpires "sid" ⟨"user", none⟩ rfl
  cases httl

end Harbor.Sessions
