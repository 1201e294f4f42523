import Nachos.Mail

/-!
# Messages on their way to the postal worker

The postal worker, the inbox of the network and the socket have between them
the messages that have not been put into a mail box.  The inbox has one unless
its length is zero; the semaphore has a unit, or the postal worker has taken
it, exactly when the inbox has a message.
-/

namespace Nachos.Scheduling

open Library

/-! ## Packets -/

namespace Sending

variable {x : Sending} {packet : Buffer maxWireSize}

theorem length_text (h : x.letter.Valid) :
    x.text.length = x.pktHdr.length.toNat := by
  have hmessage : x.letter.message.length = x.letter.mailHdr.length.toNat :=
    List.length_take_of_le h.data
  rw [text, List.length_append, hmessage, Header.length_bytes]
  exact (h.framedLength x.hostName).symm

theorem length_le (h : x.letter.Valid) :
    x.pktHdr.length.toNat ≤ maxPacketSize := by
  have hlength := h.framedLength x.hostName
  have hle := h.length
  rw [pktHdr, hlength]
  simp only [maxMailSize, maxPacketSize, maxWireSize, headerSize] at hle ⊢
  omega

theorem length_ne_zero (h : x.letter.Valid) : x.pktHdr.length ≠ 0 := by
  intro hzero
  have hlength := h.framedLength x.hostName
  rw [← pktHdr, hzero] at hlength
  simp [headerSize] at hlength
  omega

theorem valid_of_packets (h : x.packets = [packet]) :
    x.letter.Valid ∧ x.pktHdr.bytes ++ x.text <+: packet.val := by
  unfold packets at h
  split at h
  next network hsend =>
    obtain ⟨p, hframe, hsend⟩ := ok_of_bind hsend
    have hframed := Letter.framed_of_frame hframe
    obtain ⟨⟨⟩, -, hsend⟩ := ok_of_bind hsend
    obtain ⟨wire, rest, hwire, hbytes⟩ := hframed.wire
    cases hlost : p.lost with
    | true =>
        rw [hlost, if_pos rfl] at hsend
        cases hsend
        cases h
    | false =>
        rw [hlost, if_neg Bool.false_ne_true, hwire] at hsend
        cases hsend
        cases h
        refine ⟨hframed.valid, rest, ?_⟩
        rw [hbytes, hframed.hdr]
        rfl
  next => cases h

end Sending

namespace PostOfficeInput

variable {site : Site} {o o' : PostOfficeInput} {event : Event}
variable {trace : List Event}

/-! ## The steps -/

/-- What a step does. -/
inductive Move (site : Site) (o : PostOfficeInput) :
    Event → PostOfficeInput → Prop
  | arrives {x : Sending} {packet : Buffer maxWireSize} :
      x.letter.pktHdr.toAddress = site.hostName →
      x.letter.mailHdr.toAddress.toInt < site.numBoxes →
      x.packets = [packet] →
      Move site o (.sent x) { o with socket := o.socket ++ [packet] }
  | polls {network : NetworkInput} {socket : List (Buffer maxWireSize)} :
      o.network.callBack site.hostName o.socket = .ok (network, socket, false) →
      Move site o .silent { o with network := network, socket := socket }
  | fills {network : NetworkInput} {socket : List (Buffer maxWireSize)} :
      o.network.callBack site.hostName o.socket = .ok (network, socket, true) →
      Move site o .silent { o with
        network := network
        socket := socket
        messageAvailable := o.messageAvailable.give }
  | blocks : o.worker = .waiting → o.messageAvailable.value = 0 →
      Move site o .silent { o with
        messageAvailable := (o.messageAvailable.test site.postalWorker).1 }
  | passes : o.worker = .waiting → o.messageAvailable.value ≠ 0 →
      Move site o .silent { o with
        messageAvailable := (o.messageAvailable.test site.postalWorker).1
        worker := .receiving }
  | takes {pktHdr : PacketHeader} {buffer : Buffer maxPacketSize}
      {network : NetworkInput} : o.worker = .receiving →
      o.network.receive o.buffer = .ok (pktHdr, buffer, network) →
      Move site o .silent { o with
        network := network
        buffer := buffer
        worker := .making pktHdr (Header.ofBytes buffer.val) }
  | makes {pktHdr : PacketHeader} {mailHdr : MailHeader} {mail : MailId}
      {memory : Buffer maxMailSize} {m : Mail} {l : SynchList MailId}
      {happened : SynchList.Event MailId} :
      o.worker = .making pktHdr mailHdr → o.mails mail = none →
      Mail.new pktHdr mailHdr (o.buffer.val.drop headerSize) memory = .ok m →
      (o.boxes mailHdr.toAddress.toNat).step
        (.append site.postalWorker mail) = .ok (l, happened) →
      Move site o (.made mailHdr.toAddress.toNat m) { o with
        mails := Function.update o.mails mail (some m)
        worker := .putting mailHdr.toAddress.toNat
        boxes := Function.update o.boxes mailHdr.toAddress.toNat l }
  | puts {b : ℕ} {l : SynchList MailId} {happened : SynchList.Event MailId}
      {worker : Worker} : o.worker = .putting b →
      (o.boxes b).step (.go site.postalWorker) = .ok (l, happened) →
      worker = .putting b ∨ worker = .waiting →
      Move site o .silent { o with
        boxes := Function.update o.boxes b l
        worker := worker }
  | calls {t : ThreadId} {b : ℕ} {data : Buffer maxMailSize}
      {l : SynchList MailId} {happened : SynchList.Event MailId} :
      t ≠ site.postalWorker →
      (o.boxes b).step (.removeFront t) = .ok (l, happened) →
      Move site o .silent { o with
        boxes := Function.update o.boxes b l
        receiver := Function.update o.receiver t (some (b, data)) }
  | goes {t : ThreadId} {b : ℕ} {l : SynchList MailId}
      {happened : SynchList.Event MailId} : t ≠ site.postalWorker →
      (o.boxes b).step (.go t) = .ok (l, happened) →
      (∀ u mail, happened ≠ .removed u mail ∧ happened ≠ .returned u mail) →
      Move site o .silent { o with boxes := Function.update o.boxes b l }
  | waits {t : ThreadId} {b : ℕ} {w : WaiterId} {l : SynchList MailId}
      {happened : SynchList.Event MailId} :
      (o.boxes b).step (.wait t w) = .ok (l, happened) →
      Move site o .silent { o with boxes := Function.update o.boxes b l }
  | removes {t u : ThreadId} {b : ℕ} {mail : MailId} {l : SynchList MailId} :
      t ≠ site.postalWorker →
      (o.boxes b).step (.go t) = .ok (l, .removed u mail) →
      Move site o (.removed t b (o.mails mail)) { o with
        boxes := Function.update o.boxes b l }
  | returns {t u : ThreadId} {b : ℕ} {mail : MailId} {m : Mail}
      {data data' : Buffer maxMailSize} {l : SynchList MailId} :
      t ≠ site.postalWorker →
      (o.boxes b).step (.go t) = .ok (l, .returned u mail) →
      o.mails mail = some m →
      bcopy m.data.val data 0 m.mailHdr.length.toNat = .ok data' →
      Move site o (.returned t b m.pktHdr m.mailHdr data') { o with
        boxes := Function.update o.boxes b l
        mails := Function.update o.mails mail none
        receiver := Function.update o.receiver t none }

theorem inBox_ok
    {β : Type} {b : ℕ} {action : SynchList.Action MailId} {answer : β}
    {next : PostOfficeInput × SynchList.Event MailId → Except StepError β}
    (h : (o.inBox b action >>= next) = .ok answer) :
    ∃ l happened, (o.boxes b).step action = .ok (l, happened) ∧
      next ({ o with boxes := Function.update o.boxes b l }, happened) =
        .ok answer := by
  unfold inBox at h
  cases hstep : (o.boxes b).step action with
  | error error =>
      rw [hstep] at h
      cases h
  | ok result =>
      obtain ⟨l, happened⟩ := result
      rw [hstep] at h
      exact ⟨l, happened, rfl, h⟩

theorem move_of_goWorker (hstep : o.goWorker site = .ok (o', event)) :
    Move site o event o' := by
  unfold goWorker at hstep
  split at hstep
  next hworker =>
    split at hstep
    · cases hstep
    · by_cases hvalue : o.messageAvailable.value = 0
      · rw [Semaphore.test_of_zero hvalue] at hstep
        cases hstep
        have hmove : Move site o _ _ := .blocks hworker hvalue
        rw [Semaphore.test_of_zero hvalue] at hmove
        exact hmove
      · rw [Semaphore.test_of_ne_zero hvalue] at hstep
        cases hstep
        have hmove : Move site o _ _ := .passes hworker hvalue
        rw [Semaphore.test_of_ne_zero hvalue] at hmove
        exact hmove
  next hworker =>
    obtain ⟨⟨pktHdr, buffer, network⟩, hreceive, hstep⟩ :=
      Threads.simulate_ok_bind hstep
    obtain ⟨⟨⟩, -, hstep⟩ := Threads.simulate_ok_bind hstep
    obtain ⟨⟨⟩, -, hstep⟩ := Threads.simulate_ok_bind hstep
    cases hstep
    exact .takes hworker hreceive
  next => cases hstep
  next b hworker =>
    obtain ⟨l, happened, hbox, hstep⟩ := inBox_ok hstep
    simp only at hstep
    split at hstep
    · cases hstep
      exact .puts hworker hbox (.inr rfl)
    · cases hstep
      exact .puts hworker hbox (.inl hworker)

theorem move_of_goReceiver
    {t : ThreadId} (ht : t ≠ site.postalWorker)
    (hstep : o.goReceiver t = .ok (o', event)) : Move site o event o' := by
  unfold goReceiver at hstep
  split at hstep
  next => cases hstep
  next b data hreceiver =>
    obtain ⟨l, happened, hbox, hstep⟩ := inBox_ok hstep
    simp only at hstep
    split at hstep
    next u mail =>
      cases hstep
      exact .removes ht hbox
    next u mail =>
      have hfinish := Threads.ok_of_simulate hstep
      unfold finishReceive at hfinish
      split at hfinish
      next => cases hfinish
      next m hmail =>
        obtain ⟨data', hcopied, hfinish⟩ := ok_of_bind hfinish
        obtain ⟨⟨⟩, -, hfinish⟩ := ok_of_bind hfinish
        cases hfinish
        exact .returns ht hbox hmail hcopied
    next hnone hother =>
      cases hstep
      exact .goes ht hbox fun u mail =>
        ⟨fun h => hnone u mail h, fun h => hother u mail h⟩

theorem move_of_step
    {action : Action} (hsite : ForSite site trace o action) (hstep : step site o action = .ok (o', event)) :
    Move site o event o' := by
  cases action with
  | arrive x =>
      simp only [step] at hstep
      split at hstep
      next packet hpackets =>
        cases hstep
        exact .arrives hsite.1 hsite.2.2 hpackets
      next => cases hstep
  | poll =>
      obtain ⟨⟨network, socket, available⟩, hcall, hstep⟩ :=
        Threads.simulate_ok_bind hstep
      cases available with
      | true =>
          cases hstep
          exact .fills hcall
      | false =>
          cases hstep
          exact .polls hcall
  | make mail memory =>
      simp only [step] at hstep
      split at hstep
      next pktHdr mailHdr hworker hfree =>
        obtain ⟨m, hnew, hstep⟩ := Threads.simulate_ok_bind hstep
        obtain ⟨l, happened, hbox, hstep⟩ := inBox_ok hstep
        cases hstep
        exact .makes hworker hfree hnew hbox
      next => cases hstep
  | receive t box data =>
      simp only [step] at hstep
      split at hstep
      next hfree =>
        obtain ⟨⟨⟩, -, hstep⟩ := Threads.simulate_ok_bind hstep
        obtain ⟨l, happened, hbox, hstep⟩ := inBox_ok hstep
        cases hstep
        exact .calls hfree.1 hbox
      next => cases hstep
  | go t =>
      simp only [step] at hstep
      split at hstep
      · exact move_of_goWorker hstep
      next ht => exact move_of_goReceiver ht hstep
  | wait t w =>
      simp only [step] at hstep
      split at hstep
      next => cases hstep
      next b data hreceiver =>
        obtain ⟨l, happened, hbox, hstep⟩ := inBox_ok hstep
        cases hstep
        exact .waits hbox

/-! ## What is on its way -/

/-- `Send` has succeeded, and the message is for a mail box of this machine. -/
structure Addressed (site : Site) (x : Sending) : Prop where
  valid : x.letter.Valid
  host : x.pktHdr.toAddress = site.hostName
  box : x.letter.mailHdr.toAddress.toInt < site.numBoxes

/-- Where the postal worker is, apart from what it does in a mail box. -/
def Worker.progress : Worker → Worker
  | .putting _ => .waiting
  | worker => worker

/-- What the postal worker has taken from the network. -/
inductive Hand (site : Site) (worker : Worker) (buffer : Buffer maxPacketSize) :
    List Sending → Prop
  | none : (∀ pktHdr mailHdr, worker.progress ≠ .making pktHdr mailHdr) →
      Hand site worker buffer []
  | one {x : Sending} : Addressed site x →
      worker.progress = .making x.pktHdr x.letter.mailHdr →
      x.text <+: buffer.val → Hand site worker buffer [x]

inductive Inbox (site : Site) (network : NetworkInput) : List Sending → Prop
  | empty : network.inHdr.length = 0 → Inbox site network []
  | full {x : Sending} : Addressed site x → network.inHdr = x.pktHdr →
      x.text <+: network.inbox.val → Inbox site network [x]

def OnWire (site : Site) (socket : List (Buffer maxWireSize))
    (wire : List Sending) : Prop :=
  List.Forall₂ (fun packet x =>
    Addressed site x ∧ x.pktHdr.bytes ++ x.text <+: packet.val) socket wire

inductive Signal (o : PostOfficeInput) : Prop
  | idle : o.network.inHdr.length = 0 → o.messageAvailable.value = 0 →
      o.worker.progress ≠ .receiving → Signal o
  | raised : o.network.inHdr.length ≠ 0 → o.messageAvailable.value = 1 →
      o.worker.progress ≠ .receiving → Signal o
  | noticed : o.network.inHdr.length ≠ 0 → o.messageAvailable.value = 0 →
      o.worker.progress = .receiving → Signal o

/-- The messages that have been put into a mail box, with its number. -/
def made (trace : List Event) : List (ℕ × Message) :=
  trace.filterMap fun
    | .made b mail => some (b, mail.message)
    | _ => none

/-- The message of a call of `Send`, with its mail box. -/
def addressed (x : Sending) : ℕ × Message :=
  (x.box, x.message)

/-- The invariant of the way to the postal worker: nothing is lost, and
nothing is overtaken. -/
structure Transit (site : Site) (trace : List Event) (o : PostOfficeInput) :
    Prop where
  signal : o.Signal
  pipeline : ∃ hand inbox wire, Hand site o.worker o.buffer hand ∧
    Inbox site o.network inbox ∧ OnWire site o.socket wire ∧
    (sent trace).map addressed =
      made trace ++ (hand ++ inbox ++ wire).map addressed

theorem sent_append (trace : List Event) (event : Event) :
    sent (trace ++ [event]) = sent trace ++ sent [event] :=
  List.filterMap_append

theorem made_append (trace : List Event) (event : Event) :
    made (trace ++ [event]) = made trace ++ made [event] :=
  List.filterMap_append

theorem transit_start (garbage : NetworkInput) (buffer : Buffer maxPacketSize) :
    Transit site [] (start garbage buffer) where
  signal := .idle rfl rfl (by simp [start, Worker.progress])
  pipeline := ⟨[], [], [], .none (by simp [start, Worker.progress]),
    .empty rfl, .nil, rfl⟩

/-- What happens in a mail box is not on the way. -/
theorem Transit.frame
    (h : Transit site trace o) (hsocket : o'.socket = o.socket)
    (hnetwork : o'.network = o.network) (hbuffer : o'.buffer = o.buffer)
    (hvalue : o'.messageAvailable.value = o.messageAvailable.value)
    (hworker : o'.worker.progress = o.worker.progress)
    (hsent : sent [event] = []) (hmade : made [event] = []) :
    Transit site (trace ++ [event]) o' := by
  constructor
  · cases h.signal with
    | idle hlength hzero hprogress =>
        exact .idle (hnetwork ▸ hlength) (hvalue.trans hzero)
          (hworker ▸ hprogress)
    | raised hlength hone hprogress =>
        exact .raised (hnetwork ▸ hlength) (hvalue.trans hone)
          (hworker ▸ hprogress)
    | noticed hlength hzero hprogress =>
        exact .noticed (hnetwork ▸ hlength) (hvalue.trans hzero)
          (hworker.trans hprogress)
  · obtain ⟨hand, inbox, wire, hhand, hinbox, hwire, hall⟩ := h.pipeline
    refine ⟨hand, inbox, wire, ?_, hnetwork ▸ hinbox, hsocket ▸ hwire, ?_⟩
    · rw [hbuffer]
      cases hhand with
      | none hnone => exact .none (hworker ▸ hnone)
      | one haddressed hone htext =>
          exact .one haddressed (hworker.trans hone) htext
    · rw [sent_append, made_append, hsent, hmade, List.append_nil,
        List.append_nil]
      exact hall

/-- A `Mail` has the message that the postal worker has found in its
buffer. -/
theorem message_of_new
    {pktHdr : PacketHeader} {mailHdr : MailHeader} {text msgData : List (BitVec 8)}
    {memory : Buffer maxMailSize} {m : Mail}
    (h : Mail.new pktHdr mailHdr msgData memory = .ok m)
    (htext : text <+: msgData) (hlength : text.length = mailHdr.length.toNat) :
    m.message = ⟨pktHdr, mailHdr, text⟩ := by
  unfold Mail.new at h
  split at h
  next hfits =>
    obtain ⟨data, hdata, h⟩ := ok_of_bind h
    cases h
    obtain ⟨copied, hcopied, hfront⟩ := bcopy_front memory htext hlength hfits
    rw [hdata] at hcopied
    cases hcopied
    obtain ⟨rest, hrest⟩ := hfront
    simp only [Mail.message, Message.ofBytes, ← hrest,
      List.take_left' hlength]
  next => cases h

theorem Inbox.of_full
    {inbox : List Sending} (h : Inbox site o.network inbox)
    (hfull : o.network.inHdr.length ≠ 0) :
    ∃ x, inbox = [x] ∧ Addressed site x ∧ o.network.inHdr = x.pktHdr ∧
      x.text <+: o.network.inbox.val := by
  cases h with
  | empty hempty => exact (hfull hempty).elim
  | full haddressed hhdr htext => exact ⟨_, rfl, haddressed, hhdr, htext⟩

theorem Inbox.of_empty
    {inbox : List Sending} (h : Inbox site o.network inbox)
    (hempty : o.network.inHdr.length = 0) : inbox = [] := by
  cases h with
  | empty => rfl
  | full haddressed hhdr =>
      rw [hhdr] at hempty
      exact (Sending.length_ne_zero haddressed.valid hempty).elim

theorem Hand.of_progress
    {hand : List Sending} (h : Hand site o.worker o.buffer hand)
    (hnone : ∀ pktHdr mailHdr, o.worker.progress ≠ .making pktHdr mailHdr) :
    hand = [] := by
  cases h with
  | none => rfl
  | one _ hone => exact (hnone _ _ hone).elim

/-! ## All steps -/

/-- What the network finds in the socket. -/
theorem fetched
    {network : NetworkInput} {packet : Buffer maxWireSize}
    {socket : List (Buffer maxWireSize)} {wire : List Sending}
    (hempty : network.inHdr.length = 0)
    (hwire : OnWire site (packet :: socket) wire) :
    ∃ x rest inbox, wire = x :: rest ∧ Addressed site x ∧
      OnWire site socket rest ∧ x.text <+: inbox.val ∧
      network.callBack site.hostName (packet :: socket) =
        .ok (⟨x.pktHdr, inbox⟩, socket, true) := by
  cases hwire with
  | @cons _ x _ rest hfirst hrest =>
      obtain ⟨haddressed, hpacket⟩ := hfirst
      obtain ⟨inbox, hcall, htext⟩ := NetworkInput.callBack_packet socket
        hempty haddressed.host hpacket (Sending.length_text haddressed.valid)
        (Sending.length_le haddressed.valid)
      exact ⟨x, rest, inbox, rfl, haddressed, hrest, htext, hcall⟩

/-- What the postal worker finds in the inbox. -/
theorem Transit.received
    (h : Transit site trace o) (hworker : o.worker = .receiving) :
    ∃ x wire buffer, Addressed site x ∧ OnWire site o.socket wire ∧
      (sent trace).map addressed =
        made trace ++ (x :: wire).map addressed ∧
      o.messageAvailable.value = 0 ∧ x.text <+: buffer.val ∧
      o.network.receive o.buffer = .ok (x.pktHdr, buffer,
        { o.network with inHdr := { o.network.inHdr with length := 0 } }) := by
  have hreceiving : o.worker.progress = .receiving := by
    rw [hworker]
    rfl
  have hnoticed : o.network.inHdr.length ≠ 0 ∧
      o.messageAvailable.value = 0 := by
    cases h.signal with
    | idle _ _ hprogress => exact (hprogress hreceiving).elim
    | raised _ _ hprogress => exact (hprogress hreceiving).elim
    | noticed hlength hzero => exact ⟨hlength, hzero⟩
  obtain ⟨hfull, hzero⟩ := hnoticed
  obtain ⟨hand, inbox, wire, hhand, hinbox, hwire, hall⟩ := h.pipeline
  obtain ⟨x, rfl, haddressed, hhdr, htext⟩ := hinbox.of_full hfull
  obtain rfl := hhand.of_progress (by simp [hreceiving])
  have hlength : x.text.length = o.network.inHdr.length.toNat := by
    rw [hhdr]
    exact Sending.length_text haddressed.valid
  have hle : o.network.inHdr.length.toNat ≤ maxPacketSize := by
    rw [hhdr]
    exact Sending.length_le haddressed.valid
  obtain ⟨buffer, hreceive, hfront⟩ :=
    NetworkInput.receive_packet o.buffer hfull htext hlength hle
  rw [hhdr] at hreceive
  exact ⟨x, wire, buffer, haddressed, hwire, hall, hzero, hfront,
    by rw [hhdr]; exact hreceive⟩

/-- The mail header is in front of the message. -/
theorem ofBytes_of_text
    {x : Sending} {buffer : List (BitVec 8)} (htext : x.text <+: buffer) :
    Header.ofBytes buffer = x.letter.mailHdr ∧
      x.letter.message <+: buffer.drop headerSize := by
  obtain ⟨rest, rfl⟩ := htext
  constructor
  · rw [Sending.text, List.append_assoc]
    exact Header.ofBytes_append _ _
  · rw [Sending.text, List.append_assoc,
      List.drop_left' (Header.length_bytes x.letter.mailHdr)]
    exact List.prefix_append _ _

/-- What the postal worker puts into a mail box. -/
theorem Transit.delivered
    {pktHdr : PacketHeader} {mailHdr : MailHeader} {memory : Buffer maxMailSize}
    {m : Mail} (h : Transit site trace o)
    (hworker : o.worker = .making pktHdr mailHdr)
    (hnew : Mail.new pktHdr mailHdr (o.buffer.val.drop headerSize) memory =
      .ok m) :
    ∃ x inbox wire, Addressed site x ∧ Inbox site o.network inbox ∧
      OnWire site o.socket wire ∧
      (sent trace).map addressed =
        made trace ++ (x :: (inbox ++ wire)).map addressed ∧
      (mailHdr.toAddress.toNat, m.message) = addressed x := by
  have hmaking : o.worker.progress = .making pktHdr mailHdr := by
    rw [hworker]
    rfl
  obtain ⟨hand, inbox, wire, hhand, hinbox, hwire, hall⟩ := h.pipeline
  cases hhand with
  | none hnone => exact (hnone _ _ hmaking).elim
  | @one x haddressed hone htext =>
      rw [hmaking] at hone
      cases hone
      obtain ⟨-, hmessage⟩ := ofBytes_of_text htext
      have hlength : x.letter.message.length =
          x.letter.mailHdr.length.toNat :=
        List.length_take_of_le haddressed.valid.data
      refine ⟨x, inbox, wire, haddressed, hinbox, hwire, hall, ?_⟩
      rw [message_of_new hnew hmessage hlength]
      rfl

theorem Move.transit
    (hmove : Move site o event o') (h : Transit site trace o) :
    Transit site (trace ++ [event]) o' := by
  cases hmove with
  | @arrives x packet hhost hbox hpackets =>
      obtain ⟨hvalid, hbytes⟩ := Sending.valid_of_packets hpackets
      obtain ⟨hand, inbox, wire, hhand, hinbox, hwire, hall⟩ := h.pipeline
      refine ⟨?_, hand, inbox, wire ++ [x], hhand, hinbox, ?_, ?_⟩
      · cases h.signal with
        | idle hlength hzero hprogress => exact .idle hlength hzero hprogress
        | raised hlength hone hprogress => exact .raised hlength hone hprogress
        | noticed hlength hzero hprogress =>
            exact .noticed hlength hzero hprogress
      · exact List.rel_append hwire (.cons ⟨⟨hvalid, hhost, hbox⟩, hbytes⟩ .nil)
      · rw [sent_append, made_append, List.map_append, hall]
        simp [sent, made]
  | polls hcall =>
      obtain ⟨rfl, rfl⟩ := NetworkInput.callBack_false hcall
      exact h.frame rfl rfl rfl rfl rfl rfl rfl
  | @fills network socket hcall =>
      obtain ⟨hempty, packet, hsocket⟩ := NetworkInput.callBack_true hcall
      obtain ⟨hand, inbox, wire, hhand, hinbox, hwire, hall⟩ := h.pipeline
      obtain rfl := hinbox.of_empty hempty
      rw [hsocket] at hwire hcall
      obtain ⟨x, rest, inbox, rfl, haddressed, hrest, htext, hfetch⟩ :=
        fetched hempty hwire
      rw [hfetch] at hcall
      cases hcall
      refine ⟨?_, hand, [x], rest, hhand, .full haddressed rfl htext, hrest, ?_⟩
      · have hfull := Sending.length_ne_zero haddressed.valid
        cases h.signal with
        | idle _ hzero hprogress =>
            refine .raised hfull ?_ hprogress
            show (o.messageAvailable.value + 1 : BitVec 32) = 1
            rw [hzero]
            rfl
        | raised hlength => exact (hlength hempty).elim
        | noticed hlength => exact (hlength hempty).elim
      · rw [sent_append, made_append]
        simpa [sent, made] using hall
  | blocks hworker hvalue =>
      refine h.frame rfl rfl rfl ?_ rfl rfl rfl
      rw [Semaphore.test_of_zero hvalue]
  | passes hworker hvalue =>
      obtain ⟨hand, inbox, wire, hhand, hinbox, hwire, hall⟩ := h.pipeline
      obtain rfl := hhand.of_progress (by simp [hworker, Worker.progress])
      refine ⟨?_, [], inbox, wire, .none (by simp [Worker.progress]), hinbox,
        hwire, ?_⟩
      · cases h.signal with
        | idle _ hzero => exact (hvalue hzero).elim
        | raised hlength hone =>
            refine .noticed hlength ?_ rfl
            rw [Semaphore.test_of_ne_zero hvalue]
            show (o.messageAvailable.value - 1 : BitVec 32) = 0
            rw [hone]
            rfl
        | noticed _ hzero => exact (hvalue hzero).elim
      · rw [sent_append, made_append]
        simpa [sent, made] using hall
  | takes hworker hreceive =>
      obtain ⟨x, wire, buffer, haddressed, hwire, hall, hzero, htext, htaken⟩ :=
        h.received hworker
      rw [hreceive] at htaken
      cases htaken
      obtain ⟨hmailHdr, -⟩ := ofBytes_of_text htext
      rw [hmailHdr]
      refine ⟨.idle rfl hzero (by simp [Worker.progress]), [x], [], wire,
        .one haddressed rfl htext, .empty rfl, hwire, ?_⟩
      rw [sent_append, made_append]
      simpa [sent, made] using hall
  | makes hworker hfree hnew hbox =>
      obtain ⟨x, inbox, wire, haddressed, hinbox, hwire, hall, hmessage⟩ :=
        h.delivered hworker hnew
      refine ⟨?_, [], inbox, wire, .none (by simp [Worker.progress]), hinbox,
        hwire, ?_⟩
      · have hprogress : o.worker.progress ≠ .receiving := by
          simp [hworker, Worker.progress]
        cases h.signal with
        | idle hlength hzero =>
            exact .idle hlength hzero (by simp [Worker.progress])
        | raised hlength hone =>
            exact .raised hlength hone (by simp [Worker.progress])
        | noticed _ _ hreceiving => exact (hprogress hreceiving).elim
      · rw [sent_append, made_append]
        show (sent trace ++ []).map addressed = made trace ++ [_] ++ _
        rw [List.append_nil, hmessage, hall, List.append_assoc]
        rfl
  | puts hworker hbox hnext =>
      refine h.frame rfl rfl rfl rfl ?_ rfl rfl
      cases hnext with
      | inl hputting => simp [hworker, hputting, Worker.progress]
      | inr hwaiting => simp [hworker, hwaiting, Worker.progress]
  | calls => exact h.frame rfl rfl rfl rfl rfl rfl rfl
  | goes => exact h.frame rfl rfl rfl rfl rfl rfl rfl
  | waits => exact h.frame rfl rfl rfl rfl rfl rfl rfl
  | removes => exact h.frame rfl rfl rfl rfl rfl rfl rfl
  | returns => exact h.frame rfl rfl rfl rfl rfl rfl rfl

end PostOfficeInput

end Nachos.Scheduling
