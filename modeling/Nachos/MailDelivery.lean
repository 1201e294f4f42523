import Mathlib.Data.List.Induction
import Nachos.MailBoxes

/-!
# Mail delivery

The messages that are taken from a mail box are those that other machines have
sent there, in the order of the wire, and every thread gets what it has taken.
They are returned in this order, too, unless two calls of `Receive` have taken
a message of the box and have not returned.
-/

namespace Nachos.Scheduling.PostOfficeInput

open Library

variable {site : Site} {o o' : PostOfficeInput} {event : Event}
variable {trace : List Event} {b : ℕ} {t : ThreadId}

/-! ## All runs -/

structure Sound (site : Site) (trace : List Event) (o : PostOfficeInput) :
    Prop where
  transit : Transit site trace o
  boxes : Boxes site trace o

theorem run_sound
    {garbage : NetworkInput} {buffer : Buffer maxPacketSize}
    (hrun : (system site garbage buffer).Run (ForSite site) trace o) :
    Sound site trace o := by
  refine hrun.invariant (Sound site)
    ⟨transit_start garbage buffer, boxes_start garbage buffer⟩ ?_
  intro trace o o' action event _ hsound hsite hstep
  have hmove := move_of_step hsite hstep
  exact ⟨hmove.transit hsound.transit, hmove.boxes hsound.boxes⟩

/-! ## What can fail -/

theorem fault_of_bind
    {α β : Type} {outcome : Except Fault α} {next : α → Except StepError β}
    {fault : Fault}
    (h : (Threads.simulate outcome >>= next) = .error (.fault fault)) :
    outcome = .error fault ∨
      ∃ a, outcome = .ok a ∧ next a = .error (.fault fault) := by
  cases outcome with
  | error other =>
      cases h
      exact .inl rfl
  | ok a => exact .inr ⟨a, rfl, h⟩

/-- Nothing fails inside of a mail box: the mail that the postal worker
appends is not there yet. -/
theorem Boxes.safe
    {action : SynchList.Action MailId} {fault : Fault}
    (h : Boxes site trace o) :
    (o.boxes b).step action ≠ .error (.fault fault) := by
  intro hfault
  obtain ⟨events, hsound⟩ := h.sound b
  obtain ⟨place, hplaced, -⟩ := h.placed
  obtain hdisabled | ⟨t, mail, rfl, hp, hmem, -⟩ | ⟨l, happened, htaken, -⟩ :=
    SynchList.step_moves hsound action
  · rw [hdisabled] at hfault
    cases hfault
  · have hheld : mail ∈ o.lists (.heldBy t b) := by
      rw [lists, hp]
      exact List.mem_singleton_self mail
    have hlist : mail ∈ o.lists (.inBox b) := hmem
    have hsame := hplaced.eq_of_mem hheld hlist
    cases hsame
  · rw [htaken] at hfault
    cases hfault

theorem Boxes.fault_of_inBox
    {β : Type} {action : SynchList.Action MailId} {fault : Fault}
    {next : PostOfficeInput × SynchList.Event MailId → Except StepError β}
    (h : Boxes site trace o)
    (hfault : (o.inBox b action >>= next) = .error (.fault fault)) :
    ∃ l happened, (o.boxes b).step action = .ok (l, happened) ∧
      next ({ o with boxes := Function.update o.boxes b l }, happened) =
        .error (.fault fault) := by
  unfold inBox at hfault
  cases hstep : (o.boxes b).step action with
  | error error =>
      rw [hstep] at hfault
      cases hfault
      exact (h.safe hstep).elim
  | ok result =>
      obtain ⟨l, happened⟩ := result
      rw [hstep] at hfault
      exact ⟨l, happened, rfl, hfault⟩

theorem Transit.poll_safe
    {fault : Fault} (h : Transit site trace o) :
    o.network.callBack site.hostName o.socket ≠ .error fault := by
  intro hfault
  obtain ⟨hand, inbox, wire, hhand, hinbox, hwire, hall⟩ := h.pipeline
  by_cases hempty : o.network.inHdr.length = 0
  · cases hsocket : o.socket with
    | nil => simp [NetworkInput.callBack, hempty, hsocket, pure, Except.pure]
        at hfault
    | cons packet rest =>
        rw [hsocket] at hwire hfault
        obtain ⟨x, later, inbox, -, -, -, -, hcall⟩ := fetched hempty hwire
        cases hfault.symm.trans hcall
  · unfold NetworkInput.callBack at hfault
    rw [if_pos hempty] at hfault
    cases hfault

theorem Transit.make_safe
    {pktHdr : PacketHeader} {mailHdr : MailHeader} {memory : Buffer maxMailSize}
    {fault : Fault} (h : Transit site trace o)
    (hworker : o.worker = .making pktHdr mailHdr) :
    Mail.new pktHdr mailHdr (o.buffer.val.drop headerSize) memory ≠
      .error fault := by
  intro hfault
  have hmaking : o.worker.progress = .making pktHdr mailHdr := by
    rw [hworker]
    rfl
  obtain ⟨hand, inbox, wire, hhand, hinbox, hwire, hall⟩ := h.pipeline
  cases hhand with
  | none hnone => exact hnone _ _ hmaking
  | @one x haddressed hone htext =>
      rw [hmaking] at hone
      cases hone
      have hfits := haddressed.valid.length
      obtain ⟨-, hmessage⟩ := ofBytes_of_text htext
      have hlength : x.letter.message.length =
          x.letter.mailHdr.length.toNat :=
        List.length_take_of_le haddressed.valid.data
      obtain ⟨copied, hcopied, -⟩ :=
        bcopy_front memory hmessage hlength hfits
      rw [Mail.new, dif_pos hfits, hcopied] at hfault
      cases hfault

theorem Transit.receive_safe
    {fault : Fault} (h : Transit site trace o) (hboxes : Boxes site trace o) :
    o.goWorker site ≠ .error (.fault fault) := by
  intro hfault
  unfold goWorker at hfault
  split at hfault
  next =>
    split at hfault
    · cases hfault
    · by_cases hvalue : o.messageAvailable.value = 0
      · rw [Semaphore.test_of_zero hvalue] at hfault
        cases hfault
      · rw [Semaphore.test_of_ne_zero hvalue] at hfault
        cases hfault
  next hworker =>
    obtain ⟨x, wire, buffer, haddressed, -, -, -, htext, hreceive⟩ :=
      h.received hworker
    obtain ⟨hmailHdr, -⟩ := ofBytes_of_text htext
    have hbox := And.intro haddressed.valid.box haddressed.box
    have hlength := haddressed.valid.length
    rw [hreceive] at hfault
    obtain herror | ⟨result, hresult, hfault⟩ := fault_of_bind hfault
    · cases herror
    · cases hresult
      simp only [hmailHdr, assert_of_true hbox, assert_of_true hlength]
        at hfault
      cases hfault
  next => cases hfault
  next b hworker =>
    obtain ⟨l, happened, -, hfault⟩ := hboxes.fault_of_inBox hfault
    simp only at hfault
    split at hfault <;> cases hfault

/-- A mail that a thread has in its hands is alive. -/
theorem Boxes.alive
    {mail : MailId} (h : Boxes site trace o)
    (hp : (o.boxes b).point t = .returning mail) :
    ∃ m, o.mails mail = some m := by
  obtain ⟨place, hplaced, hfree⟩ := h.placed
  have hheld : mail ∈ o.lists (.heldBy t b) := by
    rw [lists, hp]
    exact List.mem_singleton_self mail
  rw [hplaced.mem_iff] at hheld
  cases hm : o.mails mail with
  | none =>
      rw [← hfree, hheld] at hm
      cases hm
  | some m => exact ⟨m, rfl⟩

theorem Boxes.goReceiver_safe
    {fault : Fault} (h : Boxes site trace o) :
    o.goReceiver t ≠ .error (.fault fault) := by
  intro hfault
  unfold goReceiver at hfault
  split at hfault
  next => cases hfault
  next b data hreceiver =>
    obtain ⟨l, happened, hbox, hfault⟩ := h.fault_of_inBox hfault
    simp only at hfault
    split at hfault
    next => cases hfault
    next u mail =>
      obtain ⟨-, hflow⟩ := within_of_go { o with
        boxes := Function.update o.boxes b l } h hbox rfl
      have hp : (o.boxes b).point t = .returning mail := by
        cases hflow with
        | keeps hmoves => cases hmoves
        | returns hlist hbefore => exact hbefore
      obtain ⟨m, hm⟩ := h.alive hp
      have hlength : (m.data.val.take m.mailHdr.length.toNat).length =
          m.mailHdr.length.toNat := by
        refine List.length_take_of_le ?_
        rw [m.data.property]
        exact m.fits
      obtain ⟨copied, hcopied, -⟩ := bcopy_front data
        (List.take_prefix m.mailHdr.length.toNat m.data.val) hlength m.fits
      simp only [finishReceive, hm, hcopied, ok_bind,
        assert_of_true m.fits] at hfault
      cases hfault
    next => cases hfault

/-- The only step that fails is a call of `Receive` for a mail box that does
not exist. -/
theorem Sound.fault
    {action : Action} {fault : Fault} (h : Sound site trace o)
    (hfault : step site o action = .error (.fault fault)) :
    ∃ t box data, action = .receive t box data ∧
      ¬(0 ≤ box ∧ box < site.numBoxes) := by
  cases action with
  | arrive x =>
      simp only [step] at hfault
      split at hfault <;> cases hfault
  | poll =>
      obtain herror | ⟨⟨network, socket, available⟩, -, hfault⟩ :=
        fault_of_bind hfault
      · exact (h.transit.poll_safe herror).elim
      · cases available <;> cases hfault
  | make mail memory =>
      simp only [step] at hfault
      split at hfault
      next pktHdr mailHdr hworker hfresh =>
        obtain herror | ⟨m, hnew, hfault⟩ := fault_of_bind hfault
        · exact (h.transit.make_safe hworker herror).elim
        · unfold inBox at hfault
          cases hstep : (o.boxes mailHdr.toAddress.toNat).step
            (.append site.postalWorker mail) with
          | error error =>
              rw [hstep] at hfault
              cases hfault
              exact (h.boxes.safe hstep).elim
          | ok result =>
              rw [hstep] at hfault
              cases hfault
      next => cases hfault
  | receive t box data =>
      refine ⟨t, box, data, rfl, ?_⟩
      intro hbox
      simp only [step, assert_of_true hbox] at hfault
      split at hfault
      · obtain ⟨l, happened, -, hfault⟩ := h.boxes.fault_of_inBox hfault
        cases hfault
      · cases hfault
  | go t =>
      simp only [step] at hfault
      split at hfault
      · exact (h.transit.receive_safe h.boxes hfault).elim
      · exact (h.boxes.goReceiver_safe hfault).elim
  | wait t w =>
      simp only [step] at hfault
      split at hfault
      · cases hfault
      · obtain ⟨l, happened, -, hfault⟩ := h.boxes.fault_of_inBox hfault
        cases hfault

/-! ## The inbox -/

theorem receive_inHdr
    {network network' : NetworkInput} {data data' : Buffer maxPacketSize}
    {hdr : PacketHeader}
    (h : network.receive data = .ok (hdr, data', network')) :
    hdr = network.inHdr := by
  unfold NetworkInput.receive at h
  dsimp only at h
  split at h
  · obtain ⟨copied, -, h⟩ := ok_of_bind h
    cases h
    rfl
  · cases h
    rfl

/-- A packet stays in the inbox until the postal worker takes it. -/
theorem inbox_kept
    {action : Action} (hfull : o.network.inHdr.length ≠ 0)
    (hstep : step site o action = .ok (o', event)) :
    o'.network = o.network ∨ o.worker = .receiving ∧
      o'.worker = .making o.network.inHdr (Header.ofBytes o'.buffer.val) := by
  by_cases hsite : ForSite site [] o action
  · have hmove := move_of_step hsite hstep
    cases hmove with
    | polls hcall => exact .inl (NetworkInput.callBack_false hcall).1
    | fills hcall => exact (hfull (NetworkInput.callBack_true hcall).1).elim
    | takes hworker hreceive =>
        rw [receive_inHdr hreceive]
        exact .inr ⟨hworker, rfl⟩
    | _ => exact .inl rfl
  · cases action with
    | arrive x =>
        simp only [step] at hstep
        split at hstep
        · cases hstep
          exact .inl rfl
        · cases hstep
    | _ => exact (hsite trivial).elim

/-! ## The order of the messages -/

theorem sentTo_eq (b : ℕ) (trace : List Event) :
    sentTo b trace = (((sent trace).map addressed).filter fun entry =>
      entry.1 = b).map Prod.snd := by
  rw [sentTo, List.filter_map, List.map_map]
  rfl

theorem Sound.taken_in_order (h : Sound site trace o) (b : ℕ) :
    (taken b trace).map Prod.snd <+: sentTo b trace := by
  obtain ⟨hand, inbox, wire, -, -, -, hall⟩ := h.transit.pipeline
  obtain ⟨rest, hmade, -⟩ := h.boxes.queued b
  rw [sentTo_eq, hall, List.filter_append, List.map_append]
  show _ <+: madeFor b trace ++ _
  rw [hmade, List.append_assoc]
  exact List.prefix_append _ _

theorem length_inHand (p : Point MailId) : p.inHand.length ≤ 1 := by
  unfold Point.inHand
  split <;> simp

/-- Every thread gets what it has taken, one after the other. -/
theorem Sound.got_in_order (h : Sound site trace o) (b : ℕ) (t : ThreadId) :
    ∃ rest, gotBy t (taken b trace) = gotBy t (returned b trace) ++ rest ∧
      rest.length ≤ 1 := by
  obtain ⟨rest, hall, hheld⟩ := h.boxes.hands b t
  refine ⟨rest, hall, ?_⟩
  have hlength := congrArg List.length hheld
  rw [List.length_map, List.length_map] at hlength
  rw [← hlength]
  exact length_inHand _

/-- At no time have two calls of `Receive` taken a message of the mail box and
not returned. -/
def OneAtATime (b : ℕ) (trace : List Event) : Prop :=
  ∀ earlier, earlier <+: trace →
    (taken b earlier).length ≤ (returned b earlier).length + 1

/-- An event is about one message at most. -/
theorem taken_or_returned (b : ℕ) (event : Event) :
    returned b [event] = [] ∨
      taken b [event] = [] ∧ ∃ entry, returned b [event] = [entry] := by
  cases event with
  | returned t c pktHdr mailHdr data =>
      by_cases hc : c = b
      · exact .inr ⟨rfl, (t, .ofBytes pktHdr mailHdr data.val), by
          simp [returned, hc]⟩
      · exact .inl (by simp [returned, hc])
  | _ => exact .inl rfl

theorem returned_of_taken
    (hgot : ∀ earlier, earlier <+: trace → ∀ t, ∃ rest,
      gotBy t (taken b earlier) = gotBy t (returned b earlier) ++ rest)
    (hone : OneAtATime b trace) :
    ∃ rest, taken b trace = returned b trace ++ rest := by
  induction trace using List.reverseRecOn with
  | nil => exact ⟨[], rfl⟩
  | append_singleton trace event ih =>
      have hbefore : trace <+: trace ++ [event] := List.prefix_append _ _
      obtain ⟨rest, hall⟩ := ih
        (fun earlier hearlier => hgot earlier (hearlier.trans hbefore))
        (fun earlier hearlier => hone earlier (hearlier.trans hbefore))
      cases taken_or_returned b event with
      | inl hnone =>
          refine ⟨rest ++ taken b [event], ?_⟩
          rw [taken_append, returned_append, hnone, List.append_nil, hall,
            List.append_assoc]
      | inr hreturned =>
          obtain ⟨hnone, ⟨t, message⟩, hentry⟩ := hreturned
          -- the thread has a message, and there is only one that is not
          -- returned
          obtain ⟨more, hmore⟩ := hgot _ (List.prefix_refl _) t
          rw [taken_append, returned_append, hnone, hentry, List.append_nil,
            hall, gotBy_append, gotBy_append, List.append_assoc,
            List.append_cancel_left_eq] at hmore
          have hlength := hone trace hbefore
          rw [hall, List.length_append] at hlength
          have hrest : rest = [(t, message)] := by
            cases rest with
            | nil => simp [gotBy] at hmore
            | cons first others =>
                have hothers : others = [] := by
                  rw [List.length_cons] at hlength
                  exact List.length_eq_zero_iff.mp (by omega)
                subst hothers
                obtain ⟨u, other⟩ := first
                by_cases hu : u = t
                · simp [gotBy, hu] at hmore
                  rw [hu, hmore.1]
                · simp [gotBy, hu] at hmore
          refine ⟨[], ?_⟩
          rw [taken_append, returned_append, hnone, hentry, List.append_nil,
            List.append_nil, hall, hrest]

/-- In every run in which the packets are for this machine: the inbox keeps
its packet until the postal worker takes it; the messages are taken from a
mail box in the order of the wire; a thread gets what it has taken; the
messages are returned in the order of the wire unless two calls have taken one
and have not returned; and nothing fails but a call of `Receive` for a mail
box that does not exist. -/
theorem mail_delivered
    {garbage : NetworkInput} {buffer : Buffer maxPacketSize}
    (hrun : (system site garbage buffer).Run (ForSite site) trace o) :
    (∀ action o' event, step site o action = .ok (o', event) →
      o.network.inHdr.length ≠ 0 →
        o'.network = o.network ∨ o.worker = .receiving ∧
          o'.worker =
            .making o.network.inHdr (Header.ofBytes o'.buffer.val)) ∧
      (∀ b, (taken b trace).map Prod.snd <+: sentTo b trace) ∧
      (∀ b t, ∃ rest,
        gotBy t (taken b trace) = gotBy t (returned b trace) ++ rest ∧
          rest.length ≤ 1) ∧
      (∀ b, OneAtATime b trace →
        (returned b trace).map Prod.snd <+: sentTo b trace) ∧
      (∀ t b, Event.removed t b none ∉ trace) ∧
      ∀ action fault, step site o action = .error (.fault fault) →
        ∃ t box data, action = .receive t box data ∧
          ¬(0 ≤ box ∧ box < site.numBoxes) := by
  have hsound := run_sound hrun
  refine ⟨?_, hsound.taken_in_order, hsound.got_in_order, ?_,
    hsound.boxes.live, ?_⟩
  · intro action o' event hstep hfull
    exact inbox_kept hfull hstep
  · intro b hone
    have hgot : ∀ earlier, earlier <+: trace → ∀ t, ∃ rest,
        gotBy t (taken b earlier) = gotBy t (returned b earlier) ++ rest := by
      intro earlier hearlier t
      obtain ⟨before, hbefore⟩ := hrun.of_isPrefix hearlier
      obtain ⟨rest, hall, -⟩ := (run_sound hbefore).got_in_order b t
      exact ⟨rest, hall⟩
    obtain ⟨rest, hall⟩ := returned_of_taken hgot hone
    have htaken := hsound.taken_in_order b
    rw [hall, List.map_append] at htaken
    exact (List.prefix_append _ _).trans htaken
  · intro action fault hfault
    exact hsound.fault hfault

def blank (n : ℕ) : Buffer n :=
  ⟨List.replicate n 0, List.length_replicate⟩

/-- A message of one byte for mail box 1 of host 0. -/
def note (byte : BitVec 8) : Sending where
  hostName := 5
  letter := ⟨⟨0, 0, 0⟩, ⟨1, 2, 1⟩, [byte], blank _, false, blank _⟩

def twoBoxes : Site :=
  ⟨0, 2, 9⟩

/-- The postal worker takes a packet and puts the message into its mail box. -/
def delivering (mail : MailId) : List Action :=
  [.poll, .go 9, .go 9, .make mail (blank _), .go 9, .go 9, .go 9, .go 9,
    .go 9, .go 9]

/-- A thread calls `Receive`, and is about to return. -/
def receiving (t : ThreadId) : List Action :=
  .receive t 1 (blank _) :: List.replicate 6 (.go t)

theorem mail_delivered_note :
    ∃ trace o, (system twoBoxes ⟨⟨0, 0, 0⟩, blank _⟩ (blank _)).Run
      (ForSite twoBoxes) trace o ∧
        returned 1 trace = [(1, (note 11).message)] ∧
        (returned 1 trace).map Prod.snd <+: sentTo 1 trace := by
  have hreplay : (system twoBoxes ⟨⟨0, 0, 0⟩, blank _⟩ (blank _)).Replays
      (ForSite twoBoxes)
      (.arrive (note 11) :: delivering 0 ++ receiving 1 ++ [.go 1])
      (fun trace _ => returned 1 trace = [(1, (note 11).message)] ∧
        ∀ earlier ∈ trace.inits,
          (taken 1 earlier).length ≤ (returned 1 earlier).length + 1) =
        true := by
    decide
  obtain ⟨trace, o, hrun, hcheck⟩ := StepSystem.exists_run_of_replays hreplay
  obtain ⟨hreturned, hone⟩ := of_decide_eq_true hcheck
  obtain ⟨-, -, -, horder, -, -⟩ := mail_delivered hrun
  refine ⟨trace, o, hrun, hreturned, horder 1 ?_⟩
  intro earlier hearlier
  exact hone earlier ((List.mem_inits _ _).mpr hearlier)

/-- One thread takes the first message, and another thread takes the second
one and returns before the first thread does. -/
theorem mail_returned_out_of_order :
    ∃ trace o, (system twoBoxes ⟨⟨0, 0, 0⟩, blank _⟩ (blank _)).Run
      (ForSite twoBoxes) trace o ∧
        returned 1 trace = [(2, (note 22).message)] ∧
        ¬(returned 1 trace).map Prod.snd <+: sentTo 1 trace := by
  have hreplay : (system twoBoxes ⟨⟨0, 0, 0⟩, blank _⟩ (blank _)).Replays
      (ForSite twoBoxes)
      (.arrive (note 11) :: .arrive (note 22) :: delivering 0 ++
        delivering 1 ++ receiving 1 ++ receiving 2 ++ [.go 2])
      (fun trace _ => returned 1 trace = [(2, (note 22).message)] ∧
        ¬(returned 1 trace).map Prod.snd <+: sentTo 1 trace) = true := by
    decide
  obtain ⟨trace, o, hrun, hcheck⟩ := StepSystem.exists_run_of_replays hreplay
  exact ⟨trace, o, hrun, of_decide_eq_true hcheck⟩

end Nachos.Scheduling.PostOfficeInput
