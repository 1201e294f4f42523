import Nachos.Network
import Nachos.SynchListItems

/-!
# The way in of the post office: `class PostOfficeInput` of `network/post.cc`

Packets that other machines have sent wait in a socket.  The network looks
there at regular times and puts one packet into its inbox; the postal worker
takes it from there and puts the message into a mail box, which is a
synchronized list; and any number of threads receive messages from the mail
boxes.
-/

namespace Nachos.Scheduling

open Library

/-- A pointer to a `Mail`. -/
abbrev MailId := ℕ

/-- `class Mail`; the message is as long as its constructor asserts. -/
structure Mail where
  pktHdr : PacketHeader
  mailHdr : MailHeader
  data : Buffer maxMailSize
  fits : mailHdr.length.toNat ≤ maxMailSize

/-- `Mail::Mail`, in memory that contains `memory`. -/
def Mail.new (pktHdr : PacketHeader) (mailHdr : MailHeader)
    (msgData : List (BitVec 8)) (memory : Buffer maxMailSize) :
    Except Fault Mail :=
  if fits : mailHdr.length.toNat ≤ maxMailSize then do
    let data ← bcopy msgData memory 0 mailHdr.length.toNat
    return ⟨pktHdr, mailHdr, data, fits⟩
  else .error .abort

/-- The headers and the bytes of a message, without what is behind them in
memory. -/
structure Message where
  pktHdr : PacketHeader
  mailHdr : MailHeader
  data : List (BitVec 8)
  deriving DecidableEq

def Message.ofBytes (pktHdr : PacketHeader) (mailHdr : MailHeader)
    (data : List (BitVec 8)) : Message :=
  ⟨pktHdr, mailHdr, data.take mailHdr.length.toNat⟩

def Mail.message (mail : Mail) : Message :=
  .ofBytes mail.pktHdr mail.mailHdr mail.data.val

/-- A call of `PostOfficeOutput::Send` on another machine. -/
structure Sending where
  hostName : BitVec 32
  letter : Letter

namespace Sending

/-- The packets that come out of the call, if it succeeds: one, or none if it
gets lost. -/
def packets (sending : Sending) : List (Buffer maxWireSize) :=
  match do
    let packet ← sending.letter.frame sending.hostName
    NetworkOutput.new.send sending.hostName packet with
  | .ok network => network.wire.map Prod.snd
  | .error _ => []

/-- The packet header, as `Send` fills it in. -/
def pktHdr (sending : Sending) : PacketHeader :=
  sending.letter.framedHdr sending.hostName

/-- What has been given to `Send`. -/
def message (sending : Sending) : Message :=
  .ofBytes sending.pktHdr sending.letter.mailHdr sending.letter.data

/-- What is in the packet behind its header. -/
def text (sending : Sending) : List (BitVec 8) :=
  sending.letter.mailHdr.bytes ++ sending.letter.message

/-- The number of the mail box that the message is for. -/
def box (sending : Sending) : ℕ :=
  sending.letter.mailHdr.toAddress.toNat

end Sending

namespace PostOfficeInput

/-- What a post office is made with, and the thread that it forks. -/
structure Site where
  hostName : BitVec 32
  numBoxes : ℤ
  postalWorker : ThreadId

/-- Where the postal worker is in `PostalDelivery`. -/
inductive Worker
  | waiting
  | receiving
  | making (pktHdr : PacketHeader) (mailHdr : MailHeader)
  | putting (box : ℕ)
  deriving DecidableEq

end PostOfficeInput

/-- `class PostOfficeInput`, with the socket of the network, the buffer of the
postal worker, and the calls of `Receive` that have not returned. -/
structure PostOfficeInput where
  socket : List (Buffer maxWireSize)
  network : NetworkInput
  messageAvailable : Semaphore
  worker : PostOfficeInput.Worker
  buffer : Buffer maxPacketSize
  boxes : ℕ → SynchList MailId
  mails : MailId → Option Mail
  receiver : ThreadId → Option (ℕ × Buffer maxMailSize)

namespace PostOfficeInput

/-- A packet of another machine gets to the socket; the network looks there;
the postal worker makes a `Mail` in free memory; a thread calls `Receive` with
a buffer; a thread takes its next step; or it makes a semaphore to wait for,
inside of a mail box. -/
inductive Action
  | arrive (sending : Sending)
  | poll
  | make (mail : MailId) (memory : Buffer maxMailSize)
  | receive (t : ThreadId) (box : ℤ) (data : Buffer maxMailSize)
  | go (t : ThreadId)
  | wait (t : ThreadId) (w : WaiterId)

inductive Event
  | silent
  | sent (sending : Sending)
  | made (box : ℕ) (mail : Mail)
  | removed (t : ThreadId) (box : ℕ) (mail : Option Mail)
  | returned (t : ThreadId) (box : ℕ) (pktHdr : PacketHeader)
      (mailHdr : MailHeader) (data : Buffer maxMailSize)

/-- A step inside of a mail box. -/
def inBox (o : PostOfficeInput) (b : ℕ) (action : SynchList.Action MailId) :
    Except StepError (PostOfficeInput × SynchList.Event MailId) := do
  let (messages, event) ← (o.boxes b).step action
  return ({ o with boxes := Function.update o.boxes b messages }, event)

/-- The rest of `MailBox::Get` and of `PostOfficeInput::Receive`, behind
`RemoveFront`. -/
def finishReceive (o : PostOfficeInput) (t : ThreadId) (b : ℕ) (mail : MailId)
    (data : Buffer maxMailSize) : Except Fault (PostOfficeInput × Event) :=
  match o.mails mail with
  | none => .error .undefinedBehaviour
  | some m => do
      let data ← bcopy m.data.val data 0 m.mailHdr.length.toNat
      assert (m.mailHdr.length.toNat ≤ maxMailSize)
      return ({ o with
        mails := Function.update o.mails mail none
        receiver := Function.update o.receiver t none },
          .returned t b m.pktHdr m.mailHdr data)

/-- The next step of the postal worker. -/
def goWorker (site : Site) (o : PostOfficeInput) :
    Except StepError (PostOfficeInput × Event) :=
  match o.worker with
  | .waiting =>
      if site.postalWorker ∈ o.messageAvailable.queue then .error .disabled
      else
        let (messageAvailable, passes) :=
          o.messageAvailable.test site.postalWorker
        let o := { o with messageAvailable := messageAvailable }
        if passes then .ok ({ o with worker := .receiving }, .silent)
        else .ok (o, .silent)
  | .receiving => do
      let (pktHdr, buffer, network) ←
        Threads.simulate (o.network.receive o.buffer)
      let mailHdr := Header.ofBytes buffer.val
      Threads.simulate (assert (0 ≤ mailHdr.toAddress.toInt ∧
        mailHdr.toAddress.toInt < site.numBoxes))
      Threads.simulate (assert (mailHdr.length.toNat ≤ maxMailSize))
      return ({ o with
        network := network
        buffer := buffer
        worker := .making pktHdr mailHdr }, .silent)
  | .making _ _ => .error .disabled
  | .putting b => do
      let (o, _) ← o.inBox b (.go site.postalWorker)
      if (o.boxes b).point site.postalWorker = .outside then
        return ({ o with worker := .waiting }, .silent)
      else return (o, .silent)

/-- The next step of a thread that receives a message. -/
def goReceiver (o : PostOfficeInput) (t : ThreadId) :
    Except StepError (PostOfficeInput × Event) :=
  match o.receiver t with
  | none => .error .disabled
  | some (b, data) => do
      let (o, event) ← o.inBox b (.go t)
      match event with
      | .removed _ mail => return (o, .removed t b (o.mails mail))
      | .returned _ mail => Threads.simulate (o.finishReceive t b mail data)
      | _ => return (o, .silent)

def step (site : Site) (o : PostOfficeInput) (action : Action) :
    Except StepError (PostOfficeInput × Event) :=
  match action with
  | .arrive sending =>
      match sending.packets with
      | [packet] =>
          .ok ({ o with socket := o.socket ++ [packet] }, .sent sending)
      | _ => .error .disabled
  | .poll => do
      let (network, socket, available) ←
        Threads.simulate (o.network.callBack site.hostName o.socket)
      let o := { o with network := network, socket := socket }
      -- `PostOfficeInput::CallBack`
      if available then
        return ({ o with messageAvailable := o.messageAvailable.give }, .silent)
      else return (o, .silent)
  | .make mail memory =>
      match o.worker, o.mails mail with
      | .making pktHdr mailHdr, none => do
          let m ← Threads.simulate
            (Mail.new pktHdr mailHdr (o.buffer.val.drop headerSize) memory)
          let b := mailHdr.toAddress.toNat
          let (o, _) ← { o with
            mails := Function.update o.mails mail (some m)
            worker := .putting b }.inBox b (.append site.postalWorker mail)
          return (o, .made b m)
      | _, _ => .error .disabled
  | .receive t box data =>
      if t ≠ site.postalWorker ∧ o.receiver t = none then do
        Threads.simulate (assert (0 ≤ box ∧ box < site.numBoxes))
        let (o, _) ← o.inBox box.toNat (.removeFront t)
        return ({ o with
          receiver := Function.update o.receiver t (some (box.toNat, data)) },
            .silent)
      else .error .disabled
  | .go t => if t = site.postalWorker then o.goWorker site else o.goReceiver t
  | .wait t w =>
      match o.receiver t with
      | none => .error .disabled
      | some (b, _) => do
          let (o, _) ← o.inBox b (.wait t w)
          return (o, .silent)

/-- `PostOfficeInput::PostOfficeInput`, with what is in memory before. -/
def start (garbage : NetworkInput) (buffer : Buffer maxPacketSize) :
    PostOfficeInput where
  socket := []
  network := .new garbage
  messageAvailable := ⟨0, []⟩
  worker := .waiting
  buffer := buffer
  boxes _ := .start
  mails _ := none
  receiver _ := none

def system (site : Site) (garbage : NetworkInput)
    (buffer : Buffer maxPacketSize) :
    StepSystem PostOfficeInput Action Event StepError where
  start := start garbage buffer
  step := step site

/-- The packets that other machines send are for this machine, and for a mail
box that it has. -/
def ForSite (site : Site) (_ : List Event) (_ : PostOfficeInput) : Action → Prop
  | .arrive x => x.letter.pktHdr.toAddress = site.hostName ∧
      0 ≤ x.letter.mailHdr.toAddress.toInt ∧
      x.letter.mailHdr.toAddress.toInt < site.numBoxes
  | _ => True

instance (site : Site) (trace : List Event) (o : PostOfficeInput)
    (action : Action) : Decidable (ForSite site trace o action) := by
  cases action <;> unfold ForSite <;> infer_instance

/-! ## What the events say -/

/-- The calls of `Send` whose packet has been put on the wire. -/
def sent (trace : List Event) : List Sending :=
  trace.filterMap fun
    | .sent sending => some sending
    | _ => none

/-- The messages for a mail box that have been put on the wire. -/
def sentTo (b : ℕ) (trace : List Event) : List Message :=
  ((sent trace).filter fun sending => sending.box = b).map Sending.message

/-- The messages that have been taken from a mail box, and by whom. -/
def taken (b : ℕ) (trace : List Event) : List (ThreadId × Message) :=
  trace.filterMap fun
    | .removed t b' (some mail) =>
        if b' = b then some (t, mail.message) else none
    | _ => none

/-- The messages of a mail box that `Receive` has returned, and to whom. -/
def returned (b : ℕ) (trace : List Event) : List (ThreadId × Message) :=
  trace.filterMap fun
    | .returned t b' pktHdr mailHdr data =>
        if b' = b then some (t, .ofBytes pktHdr mailHdr data.val) else none
    | _ => none

end PostOfficeInput

end Nachos.Scheduling
