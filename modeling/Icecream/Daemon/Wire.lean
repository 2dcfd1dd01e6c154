import Mathlib.Logic.Function.Basic
import Icecream.Comm.Intake
import Icecream.Daemon.Loop

/-!
# The clients' channels

The event loop with the channels that it reads its clients' messages from. The messages of an
event are what `get_msg` makes of the bytes that have arrived.
-/

namespace Icecream.Iceccd

open Icecream.Comm

/-- The channel of a client, the last message taken from it, and what has been read behind
that message -/
structure Line where
  channel : Connection
  last : Option Msg
  behind : Bytes

/-- What is looked for a last status message in while a message is taken and handled, and what
arrives while the handler waits for another one -/
structure Taking where
  status : List Arrival := []
  next : List Arrival := []
  nextStatus : List Arrival := []
  sendStatus : List Arrival := []

/-- `handle_transfer_env` takes a message itself. -/
def readsOn (c : Client) : Msg → Bool
  | .transferEnv m => c.status ≠ .toInstall ∧ m.name ≠ [] ∧ m.name.all legalChar
  | _ => false

/-- The events at which the loop may read from a client -/
def Event.reads : Event → Bool
  | .collect _ _ | .accept _ _ _ | .acceptFailed | .clientMsg _ _ | .clientRead => true
  | _ => false

namespace Line

variable (p : Platform)

def readABit (l : Line) (a : Arrival) (status : List Arrival) : Line × Bool :=
  let r := l.channel.readABit p (Connection.setError p status) a
  ({ l with channel := r.1, behind := l.behind ++ l.channel.arriving p a }, r.2)

def getMsg (l : Line) (eofAllowed : Bool) (as status : List Arrival) : Option Msg × Line :=
  let r := l.channel.getMsg p (Connection.setError p status) eofAllowed as
  match r.1 with
  | none => (none, { l with channel := r.2 })
  | some m =>
    let found := (l.channel.waitForMsg p (Connection.setError p status) as).1
    (some m, ⟨r.2, some m, found.remainder⟩)

/-- The messages that `handle_activity` and the handler it calls take -/
def receive (l : Line) (c : Client) (x : Taking) : (Option Msg × Option Msg) × Line :=
  let r := l.getMsg p true [] x.status
  if r.1.any (readsOn c) then
    let r' := r.2.getMsg p false x.next x.nextStatus
    ((r.1, r'.1), r'.2)
  else ((r.1, none), r.2)

/-- `send_msg` has failed. -/
def fail (l : Line) (status : List Arrival) : Line :=
  { l with channel := Connection.setError p status l.channel }

/-- `createChannel` on an accepted socket; none when the setup fails. -/
def create (sends : List SendEvent) (as status : List Arrival) : Option Line :=
  let c := Connection.create p 45 21 false sends status
  let r := c.waitForProtocol p (Connection.setError p status) as
  if r.2 then some ⟨r.1, none, r.1.ch.ahead⟩ else none

end Line

/-- The channels by their descriptors, from the time when they are set up -/
structure Wire where
  loop : EventLoop
  line : ℕ → Option Line

inductive Input
  | accept (place fd : ℕ) (sends : List SendEvent) (as status : List Arrival)
  /-- the next client of the poll set -/
  | collect (x : Taking)
  /-- the client at hand is read from -/
  | read (a : Arrival) (status : List Arrival) (x : Taking)
  /-- nothing has arrived from the client at hand -/
  | skip
  | other (e : Event)

namespace Wire

variable (p : Platform)

def set (w : Wire) (loop : EventLoop) (fd : ℕ) (l : Line) : Wire :=
  ⟨loop, Function.update w.line fd (some l)⟩

/-- A send to the client has failed between two states of the loop. -/
def sendFails (s t : EventLoop) (c : Client) : Bool :=
  (t.daemon.log.take (t.daemon.log.length - s.daemon.log.length)).any fun
    | .toClient id _ ok => id = c.clientId ∧ ok = false
    | _ => false

/-- A message of client `c` is taken and handled. The other clients that a send fails to are
ended, and their channels closed. -/
def handle (w : Wire) (fd : ℕ) (c : Client) (l : Line) (x : Taking)
    (event : Option Msg → Option Msg → Event) : Option Wire :=
  let r := l.receive p c x
  (w.loop.next (event r.1.1 r.1.2)).map fun t =>
    w.set t fd (if sendFails w.loop t c then r.2.fail p x.sendStatus else r.2)

/-- One turn of the loop over the messages of a client -/
def turn (w : Wire) (fd : ℕ) (c : Client) (l : Line) (a : Arrival) (status : List Arrival)
    (x : Taking) : Option Wire :=
  let r := l.readABit p a status
  if r.2 = false ∨ r.1.channel.ch.hasMsg then w.handle p fd c r.1 x .clientMsg
  else (w.loop.next .clientRead).map fun t => w.set t fd r.1

def collect (w : Wire) (fd : ℕ) (c : Client) (l : Line) (x : Taking) : Option Wire :=
  if c.status.paused ∨ ¬ l.channel.ch.hasMsg then
    (w.loop.next (.collect none none)).map fun t => { w with loop := t }
  else w.handle p fd c l x fun m next => .collect (some m) next

/-- The client on `fd`, with its channel -/
def client (w : Wire) (fd : ℕ) : Option (Client × Line) :=
  (w.loop.daemon.clients.findByFd fd).bind fun c => (w.line fd).map fun l => (c, l)

def next (w : Wire) : Input → Option Wire
  | .accept place fd sends as status =>
    match Line.create p sends as status with
    | some l =>
      (w.loop.next (.accept place fd l.channel.protocol.toNat)).map fun t => w.set t fd l
    | none => (w.loop.next .acceptFailed).map fun t => { w with loop := t }
  | .collect x =>
    match w.loop.phase with
    | .collecting [] _ _ => (w.loop.next (.collect none none)).map fun t => { w with loop := t }
    | .collecting (fd :: _) _ _ => (w.client fd).bind fun r => w.collect p fd r.1 r.2 x
    | _ => none
  | .read a status x =>
    match w.loop.phase with
    | .accepted _ fd => (w.client fd).bind fun r => w.turn p fd r.1 r.2 a status x
    | .visiting _ _ (fd :: _) fds _ => (w.client fd).bind fun r =>
      if fd ∉ fds then none
      -- the input is left to the child
      else if r.1.status = .toCompile then
        (w.loop.next .clientRead).map fun t => w.set t fd (r.2.readABit p a status).1
      else w.turn p fd r.1 r.2 a status x
    | _ => none
  | .skip =>
    match w.loop.phase with
    | .visiting _ _ _ _ _ => (w.loop.next .clientRead).map fun t => { w with loop := t }
    | _ => none
  | .other e =>
    if e.reads then none else (w.loop.next e).map fun t => { w with loop := t }

structure Init (w : Wire) : Prop where
  loop : w.loop.Init
  line : w.line = fun _ => none

def system : Transition.System Wire Input where
  init := Init
  next := next p

end Wire

end Icecream.Iceccd
