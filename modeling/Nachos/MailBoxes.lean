import Nachos.Library.Placement
import Nachos.MailTransit

/-!
# Messages in the mail boxes

A `Mail` is in the hands of the postal worker, then in a mail box, and then in
the hands of the thread that has removed it, which deletes it.  So it is alive
wherever there is a pointer to it, and the threads find in it what the postal
worker has put there.
-/

namespace Nachos.Scheduling.PostOfficeInput

open Library

variable {site : Site} {o o' : PostOfficeInput} {event : Event}
variable {trace : List Event} {b : ℕ} {t : ThreadId}

/-! ## Where the mails are -/

inductive Place
  | inBox (b : ℕ)
  | heldBy (t : ThreadId) (b : ℕ)
  deriving DecidableEq

def lists (o : PostOfficeInput) : Place → List MailId
  | .inBox b => (o.boxes b).list
  | .heldBy t b => ((o.boxes b).point t).held

/-- The mails of a box that have not been removed, and the one that the postal
worker is about to put there. -/
def queue (site : Site) (o : PostOfficeInput) (b : ℕ) : List MailId :=
  (o.boxes b).list ++ ((o.boxes b).point site.postalWorker).offered

def messageOf (o : PostOfficeInput) (mail : MailId) : Option Message :=
  (o.mails mail).map Mail.message

/-- The messages that the postal worker has put into a mail box. -/
def madeFor (b : ℕ) (trace : List Event) : List Message :=
  ((made trace).filter fun entry => entry.1 = b).map Prod.snd

/-- The messages that a thread has got. -/
def gotBy (t : ThreadId) (entries : List (ThreadId × Message)) : List Message :=
  (entries.filter fun entry => entry.1 = t).map Prod.snd

/-- The invariant of the mail boxes. -/
structure Boxes (site : Site) (trace : List Event) (o : PostOfficeInput) :
    Prop where
  sound : ∀ b, ∃ events, SynchList.Sound events (o.boxes b)
  placed : ∃ place, Placed place o.lists ∧
    ∀ mail, place mail = none ↔ o.mails mail = none
  calls : ∀ b t, (o.boxes b).point t ≠ .outside →
    (((o.boxes b).point t).appends = true ↔ t = site.postalWorker)
  queued : ∀ b, ∃ rest,
    madeFor b trace = (taken b trace).map Prod.snd ++ rest ∧
      (o.queue site b).map o.messageOf = rest.map some
  hands : ∀ b t, ∃ rest,
    gotBy t (taken b trace) = gotBy t (returned b trace) ++ rest ∧
      ((o.boxes b).point t).inHand.map o.messageOf = rest.map some
  live : ∀ t b, Event.removed t b none ∉ trace

theorem boxes_start (garbage : NetworkInput) (buffer : Buffer maxPacketSize) :
    Boxes site [] (start garbage buffer) where
  sound _ := ⟨[], SynchList.sound_start⟩
  placed := by
    refine ⟨fun _ => none, ⟨?_, ?_⟩, fun _ => ⟨fun _ => rfl, fun _ => rfl⟩⟩
    · intro p mail
      cases p <;> simp [lists, start, SynchList.start, Point.held,
        Point.offered, Point.inHand]
    · intro p
      cases p <;> exact List.nodup_nil
  calls _ _ hinside := (hinside rfl).elim
  queued _ := ⟨[], rfl, rfl⟩
  hands _ _ := ⟨[], rfl, rfl⟩
  live _ _ := List.not_mem_nil

theorem taken_append (b : ℕ) (trace : List Event) (event : Event) :
    taken b (trace ++ [event]) = taken b trace ++ taken b [event] :=
  List.filterMap_append

theorem returned_append (b : ℕ) (trace : List Event) (event : Event) :
    returned b (trace ++ [event]) = returned b trace ++ returned b [event] :=
  List.filterMap_append

theorem madeFor_append (b : ℕ) (trace : List Event) (event : Event) :
    madeFor b (trace ++ [event]) = madeFor b trace ++ madeFor b [event] := by
  simp only [madeFor, made_append, List.filter_append, List.map_append]

theorem gotBy_append (t : ThreadId) (first second : List (ThreadId × Message)) :
    gotBy t (first ++ second) = gotBy t first ++ gotBy t second := by
  simp only [gotBy, List.filter_append, List.map_append]

/-! ## Steps that are not about a mail -/

/-- An event that is not about a mail. -/
structure Aside (event : Event) : Prop where
  made : made [event] = []
  taken : ∀ b, taken b [event] = []
  returned : ∀ b, returned b [event] = []
  live : ∀ t b, event ≠ .removed t b none

theorem aside_silent : Aside .silent :=
  ⟨rfl, fun _ => rfl, fun _ => rfl, nofun⟩

theorem aside_sent (x : Sending) : Aside (.sent x) :=
  ⟨rfl, fun _ => rfl, fun _ => rfl, nofun⟩

theorem Boxes.live_append
    (h : Boxes site trace o) (hevent : ∀ t b, event ≠ .removed t b none) :
    ∀ t b, Event.removed t b none ∉ trace ++ [event] := by
  intro t b hmem
  cases List.mem_append.mp hmem with
  | inl hbefore => exact h.live t b hbefore
  | inr hlast => exact hevent t b (List.mem_singleton.mp hlast).symm

theorem messageOf_same (hmails : o'.mails = o.mails) :
    o'.messageOf = o.messageOf := by
  funext mail
  simp only [messageOf, hmails]

/-- The mail boxes are where they were, for all that can be seen of them. -/
theorem Boxes.frame
    (h : Boxes site trace o) (haside : Aside event)
    (hsound : ∀ b, ∃ events, SynchList.Sound events (o'.boxes b))
    (hcalls : ∀ b t, (o'.boxes b).point t ≠ .outside →
      (((o'.boxes b).point t).appends = true ↔ t = site.postalWorker))
    (hplaced : ∃ place, Placed place o'.lists ∧
      ∀ mail, place mail = none ↔ o.mails mail = none)
    (hmails : o'.mails = o.mails)
    (hqueue : ∀ b, o'.queue site b = o.queue site b)
    (hinHand : ∀ b t, ((o'.boxes b).point t).inHand =
      ((o.boxes b).point t).inHand) : Boxes site (trace ++ [event]) o' where
  sound := hsound
  placed := by
    rw [hmails]
    exact hplaced
  calls := hcalls
  queued b := by
    obtain ⟨rest, hall, hqueued⟩ := h.queued b
    refine ⟨rest, ?_, ?_⟩
    · rw [madeFor_append, taken_append, haside.taken, List.append_nil, ← hall]
      simp [madeFor, haside.made]
    · rw [hqueue, ← hqueued, messageOf_same hmails]
  hands b t := by
    obtain ⟨rest, hall, hheld⟩ := h.hands b t
    refine ⟨rest, ?_, ?_⟩
    · rw [taken_append, returned_append, haside.taken, haside.returned,
        List.append_nil, List.append_nil, hall]
    · rw [hinHand, ← hheld, messageOf_same hmails]
  live := h.live_append haside.live

/-- Nothing happens in the mail boxes. -/
theorem Boxes.same
    (h : Boxes site trace o) (haside : Aside event)
    (hboxes : o'.boxes = o.boxes) (hmails : o'.mails = o.mails) :
    Boxes site (trace ++ [event]) o' := by
  have hlists : o'.lists = o.lists := by
    funext p
    cases p <;> simp only [lists, hboxes]
  refine h.frame haside ?_ ?_ ?_ hmails ?_ ?_
  · rw [hboxes]
    exact h.sound
  · rw [hboxes]
    exact h.calls
  · rw [hlists]
    exact h.placed
  · intro b
    simp only [queue, hboxes]
  · rw [hboxes]
    exact fun _ _ => rfl

/-! ## Steps inside of a mail box -/

/-- Thread `t` takes a step in mail box `b`. -/
structure Within (site : Site) (o : PostOfficeInput) (b : ℕ) (t : ThreadId)
    (l : SynchList MailId) (o' : PostOfficeInput) : Prop where
  boxes : o'.boxes = Function.update o.boxes b l
  sound : ∃ events, SynchList.Sound events l
  others : ∀ u, u ≠ t → l.point u = (o.boxes b).point u
  call : l.point t ≠ .outside →
    ((l.point t).appends = true ↔ t = site.postalWorker)

variable {l : SynchList MailId}

theorem Within.self (h : Within site o b t l o') : o'.boxes b = l := by
  rw [h.boxes, Function.update_self]

theorem Within.other (h : Within site o b t l o') {c : ℕ} (hc : c ≠ b) :
    o'.boxes c = o.boxes c := by
  rw [h.boxes, Function.update_of_ne hc]

theorem Within.point
    (h : Within site o b t l o') {c : ℕ} {u : ThreadId}
    (hne : ¬(c = b ∧ u = t)) :
    (o'.boxes c).point u = (o.boxes c).point u := by
  by_cases hc : c = b
  · subst hc
    rw [h.self]
    exact h.others u fun hu => hne ⟨rfl, hu⟩
  · rw [h.other hc]

theorem Within.sound_boxes
    (h : Within site o b t l o') (hboxes : Boxes site trace o) :
    ∀ c, ∃ events, SynchList.Sound events (o'.boxes c) := by
  intro c
  by_cases hc : c = b
  · subst hc
    rw [h.self]
    exact h.sound
  · rw [h.other hc]
    exact hboxes.sound c

theorem Within.calls
    (h : Within site o b t l o') (hboxes : Boxes site trace o) :
    ∀ c u, (o'.boxes c).point u ≠ .outside →
      (((o'.boxes c).point u).appends = true ↔ u = site.postalWorker) := by
  intro c u
  by_cases hself : c = b ∧ u = t
  · obtain ⟨rfl, rfl⟩ := hself
    rw [h.self]
    exact h.call
  · rw [h.point hself]
    exact hboxes.calls c u

/-- Only the list of the box changes, and what the thread holds. -/
theorem Within.lists (h : Within site o b t l o') :
    o'.lists = Function.update
      (Function.update o.lists (.inBox b) l.list)
      (.heldBy t b) (l.point t).held := by
  funext p
  cases p with
  | inBox c =>
      by_cases hc : c = b
      · subst hc
        simp [PostOfficeInput.lists, h.self]
      · simp [PostOfficeInput.lists, h.other hc, hc]
  | heldBy u c =>
      by_cases hself : u = t ∧ c = b
      · obtain ⟨rfl, rfl⟩ := hself
        simp [PostOfficeInput.lists, h.self]
      · have hpoint := h.point fun hboth => hself ⟨hboth.2, hboth.1⟩
        have hne : Place.heldBy u c ≠ .heldBy t b := by simpa using hself
        simp [PostOfficeInput.lists, hpoint, hne]

/-- Only what the thread holds changes. -/
theorem Within.lists_of_list
    (h : Within site o b t l o') (hlist : l.list = (o.boxes b).list) :
    o'.lists = Function.update o.lists (.heldBy t b) (l.point t).held := by
  rw [h.lists, hlist]
  exact congrArg (fun f => Function.update f _ _) (Function.update_eq_self ..)

theorem Within.queue_other
    (h : Within site o b t l o') {c : ℕ} (hc : c ≠ b) :
    o'.queue site c = o.queue site c := by
  rw [queue, queue, h.other hc]

/-- The queue of the box, unless it is the postal worker that takes the
step. -/
theorem Within.queue_self
    (h : Within site o b t l o') (ht : t ≠ site.postalWorker) :
    o'.queue site b =
      l.list ++ ((o.boxes b).point site.postalWorker).offered := by
  rw [queue, h.self, h.others _ (Ne.symm ht)]

/-- A thread takes a step that is not about a mail. -/
theorem Boxes.keeps
    (h : Boxes site trace o) (hwithin : Within site o b t l o')
    (haside : Aside event) (hmails : o'.mails = o.mails)
    (hlist : l.list = (o.boxes b).list)
    (hoffered : (l.point t).offered = ((o.boxes b).point t).offered)
    (hinHand : (l.point t).inHand = ((o.boxes b).point t).inHand) :
    Boxes site (trace ++ [event]) o' := by
  have hlists : o'.lists = o.lists := by
    rw [hwithin.lists_of_list hlist, Point.held, hoffered, hinHand]
    exact Function.update_eq_self ..
  refine h.frame haside (hwithin.sound_boxes h) (hwithin.calls h) ?_ hmails
    ?_ ?_
  · rw [hlists]
    exact h.placed
  · intro c
    by_cases hc : c = b
    · subst hc
      by_cases ht : site.postalWorker = t
      · rw [queue, queue, hwithin.self, hlist, ht, hoffered]
      · rw [hwithin.queue_self (Ne.symm ht), hlist]
        rfl
    · exact hwithin.queue_other hc
  · intro c u
    by_cases hself : c = b ∧ u = t
    · obtain ⟨rfl, rfl⟩ := hself
      rw [hwithin.self, hinHand]
    · rw [hwithin.point hself]

/-- A mail that there is goes to another place. -/
theorem free_of_moved
    {place : MailId → Option Place} {mail : MailId} {p : Place}
    (hfree : ∀ mail, place mail = none ↔ o.mails mail = none)
    (hmail : place mail = some p) (q : Place) (other : MailId) :
    Function.update place mail (some q) other = none ↔
      o.mails other = none := by
  by_cases hother : other = mail
  · subst hother
    rw [Function.update_self, ← hfree, hmail]
    simp
  · rw [Function.update_of_ne hother]
    exact hfree other

/-- A mail is made or deleted. -/
theorem free_of_update
    {place : MailId → Option Place} {mail : MailId} {entry : Option Mail}
    {p : Option Place}
    (hfree : ∀ mail, place mail = none ↔ o.mails mail = none)
    (hmails : o'.mails = Function.update o.mails mail entry)
    (hentry : p = none ↔ entry = none) (other : MailId) :
    Function.update place mail p other = none ↔ o'.mails other = none := by
  rw [hmails]
  by_cases hother : other = mail
  · subst hother
    rw [Function.update_self, Function.update_self]
    exact hentry
  · rw [Function.update_of_ne hother, Function.update_of_ne hother]
    exact hfree other

/-- The postal worker puts a mail into the list of the box. -/
theorem Boxes.inserts
    {mail : MailId} (h : Boxes site trace o)
    (hwithin : Within site o b site.postalWorker l o') (haside : Aside event)
    (hmails : o'.mails = o.mails)
    (hlist : l.list = (o.boxes b).list ++ [mail])
    (hbefore : (o.boxes b).point site.postalWorker = .appending mail)
    (hafter : l.point site.postalWorker = .signalling) :
    Boxes site (trace ++ [event]) o' := by
  obtain ⟨place, hplaced, hfree⟩ := h.placed
  have hheld : o.lists (.heldBy site.postalWorker b) = [mail] := by
    rw [lists, hbefore]
    rfl
  have hmail : place mail = some (.heldBy site.postalWorker b) := by
    rw [← hplaced.mem_iff, hheld]
    exact List.mem_singleton_self mail
  refine h.frame haside (hwithin.sound_boxes h) (hwithin.calls h) ?_ hmails
    ?_ ?_
  · refine ⟨Function.update place mail (some (.inBox b)), ?_, ?_⟩
    · have hne : Place.inBox b ≠ .heldBy site.postalWorker b := nofun
      have hmoved := hplaced.move hne hheld
      rw [Function.update_comm hne.symm] at hmoved
      rw [hwithin.lists, hlist, hafter]
      exact hmoved
    · exact free_of_moved hfree hmail _
  · intro c
    by_cases hc : c = b
    · subst hc
      rw [queue, queue, hwithin.self, hlist, hafter, hbefore]
      simp [Point.offered]
    · exact hwithin.queue_other hc
  · intro c u
    by_cases hself : c = b ∧ u = site.postalWorker
    · obtain ⟨rfl, rfl⟩ := hself
      rw [hwithin.self, hafter, hbefore]
      rfl
    · rw [hwithin.point hself]

/-- A thread that is not the postal worker removes a mail from the box. -/
theorem Boxes.removes
    {mail : MailId} (h : Boxes site trace o) (ht : t ≠ site.postalWorker)
    (hwithin : Within site o b t l o') (hmails : o'.mails = o.mails)
    (hlist : (o.boxes b).list = mail :: l.list)
    (hbefore : (o.boxes b).point t = .removing)
    (hafter : l.point t = .releasing (.remove mail)) :
    Boxes site (trace ++ [.removed t b (o.mails mail)]) o' := by
  obtain ⟨place, hplaced, hfree⟩ := h.placed
  have hfront : o.lists (.inBox b) = mail :: l.list := hlist
  have hmail : place mail = some (.inBox b) := by
    rw [← hplaced.mem_iff, hfront]
    exact List.mem_cons_self
  obtain ⟨m, hm⟩ : ∃ m, o.mails mail = some m := by
    cases hm : o.mails mail with
    | none =>
        rw [← hfree, hmail] at hm
        cases hm
    | some m => exact ⟨m, rfl⟩
  have hmessage : o.messageOf mail = some m.message := by
    simp [messageOf, hm]
  have htaken : ∀ c, taken c [Event.removed t b (some m)] =
      if c = b then [(t, m.message)] else [] := by
    intro c
    by_cases hc : c = b
    · simp [taken, hc]
    · simp [taken, hc, Ne.symm hc]
  rw [hm]
  refine ⟨hwithin.sound_boxes h, ?_, hwithin.calls h, ?_, ?_, ?_⟩
  · rw [hmails]
    refine ⟨Function.update place mail (some (.heldBy t b)), ?_, ?_⟩
    · have hne : Place.heldBy t b ≠ .inBox b := by simp
      have hmoved := hplaced.move hne hfront
      have hheld : o.lists (.heldBy t b) = [] := by
        rw [lists, hbefore]
        rfl
      rw [hheld] at hmoved
      rw [hwithin.lists, hafter]
      exact hmoved
    · exact free_of_moved hfree hmail _
  · intro c
    obtain ⟨rest, hall, hqueued⟩ := h.queued c
    rw [madeFor_append, taken_append, htaken, messageOf_same hmails]
    by_cases hc : c = b
    · subst hc
      rw [queue, hlist, List.cons_append, List.map_cons, hmessage] at hqueued
      cases rest with
      | nil => cases hqueued
      | cons first rest =>
          rw [List.map_cons, List.cons.injEq] at hqueued
          obtain ⟨hfirst, hqueued⟩ := hqueued
          cases hfirst
          refine ⟨rest, ?_, ?_⟩
          · rw [hall]
            simp [madeFor, made]
          · rw [hwithin.queue_self ht]
            exact hqueued
    · refine ⟨rest, ?_, ?_⟩
      · rw [hall]
        simp [madeFor, made, hc]
      · rw [hwithin.queue_other hc]
        exact hqueued
  · intro c u
    obtain ⟨rest, hall, hheld⟩ := h.hands c u
    rw [taken_append, returned_append, gotBy_append, gotBy_append, htaken,
      messageOf_same hmails]
    by_cases hself : c = b ∧ u = t
    · obtain ⟨rfl, rfl⟩ := hself
      rw [hbefore] at hheld
      have hnone : rest = [] := by simpa [Point.inHand] using hheld.symm
      subst hnone
      refine ⟨[m.message], ?_, ?_⟩
      · rw [hall]
        simp [gotBy, returned]
      · rw [hwithin.self, hafter]
        simp [Point.inHand, hmessage]
    · refine ⟨rest, ?_, ?_⟩
      · rw [hall]
        by_cases hc : c = b
        · have hu : t ≠ u := fun hu => hself ⟨hc, hu.symm⟩
          simp [gotBy, returned, hc, hu]
        · simp [gotBy, returned, hc]
      · rw [hwithin.point hself]
        exact hheld
  · refine h.live_append ?_
    intro u c hevent
    cases hevent

/-- The pointers to other mails are as good as before. -/
theorem map_messageOf
    {mail : MailId} {entry : Option Mail} {mails : List MailId}
    (hmails : o'.mails = Function.update o.mails mail entry)
    (hout : mail ∉ mails) : mails.map o'.messageOf = mails.map o.messageOf := by
  refine List.map_congr_left ?_
  intro other hother
  have hne : other ≠ mail := fun hsame => hout (hsame ▸ hother)
  rw [messageOf, messageOf, hmails, Function.update_of_ne hne]

/-- Where a mail can be. -/
theorem place_of_mem_queue
    {place : MailId → Option Place} {mail : MailId}
    (hplaced : Placed place o.lists) (hmem : mail ∈ o.queue site b) :
    place mail = some (.inBox b) ∨
      place mail = some (.heldBy site.postalWorker b) := by
  cases List.mem_append.mp hmem with
  | inl hlist => exact .inl ((hplaced.mem_iff (.inBox b) mail).mp hlist)
  | inr hoffered =>
      refine .inr ((hplaced.mem_iff (.heldBy site.postalWorker b) mail).mp ?_)
      exact List.mem_append_left _ hoffered

theorem place_of_mem_inHand
    {place : MailId → Option Place} {mail : MailId}
    (hplaced : Placed place o.lists)
    (hmem : mail ∈ ((o.boxes b).point t).inHand) :
    place mail = some (.heldBy t b) :=
  (hplaced.mem_iff (.heldBy t b) mail).mp (List.mem_append_right _ hmem)

/-- A thread deletes the mail that it has removed. -/
theorem Boxes.returns
    {mail : MailId} {m : Mail} {data : Buffer maxMailSize}
    (h : Boxes site trace o) (ht : t ≠ site.postalWorker)
    (hwithin : Within site o b t l o')
    (hmails : o'.mails = Function.update o.mails mail none)
    (hlist : l.list = (o.boxes b).list)
    (hbefore : (o.boxes b).point t = .returning mail)
    (hafter : l.point t = .outside) (hm : o.mails mail = some m)
    (hdata : Message.ofBytes m.pktHdr m.mailHdr data.val = m.message) :
    Boxes site (trace ++ [.returned t b m.pktHdr m.mailHdr data]) o' := by
  obtain ⟨place, hplaced, hfree⟩ := h.placed
  have hheld : o.lists (.heldBy t b) = [mail] := by
    rw [lists, hbefore]
    rfl
  have hmail : place mail = some (.heldBy t b) := by
    rw [← hplaced.mem_iff, hheld]
    exact List.mem_singleton_self mail
  have hmessage : o.messageOf mail = some m.message := by
    simp [messageOf, hm]
  have hreturned : ∀ c, returned c
      [Event.returned t b m.pktHdr m.mailHdr data] =
        if c = b then [(t, m.message)] else [] := by
    intro c
    by_cases hc : c = b
    · simp [returned, hc, hdata]
    · simp [returned, hc, Ne.symm hc]
  refine ⟨hwithin.sound_boxes h, ?_, hwithin.calls h, ?_, ?_, ?_⟩
  · refine ⟨Function.update place mail none, ?_, ?_⟩
    · have hleft := hplaced.leave hheld
      rw [hwithin.lists_of_list hlist, hafter]
      exact hleft
    · exact free_of_update hfree hmails (by simp)
  · intro c
    obtain ⟨rest, hall, hqueued⟩ := h.queued c
    have hqueue : o'.queue site c = o.queue site c := by
      by_cases hc : c = b
      · subst hc
        rw [hwithin.queue_self ht, hlist]
        rfl
      · exact hwithin.queue_other hc
    have hout : mail ∉ o.queue site c := by
      intro hmem
      cases place_of_mem_queue hplaced hmem with
      | inl hbox =>
          rw [hmail] at hbox
          cases hbox
      | inr hworker =>
          rw [hmail] at hworker
          cases hworker
          exact ht rfl
    refine ⟨rest, ?_, ?_⟩
    · rw [madeFor_append, taken_append, hall]
      simp [madeFor, made, taken]
    · rw [hqueue, map_messageOf hmails hout]
      exact hqueued
  · intro c u
    obtain ⟨rest, hall, hinHand⟩ := h.hands c u
    rw [taken_append, returned_append, gotBy_append, gotBy_append, hreturned]
    by_cases hself : c = b ∧ u = t
    · obtain ⟨rfl, rfl⟩ := hself
      rw [hbefore] at hinHand
      have hone : rest = [m.message] := by
        have hmap : rest.map some = [some m.message] := by
          simpa [Point.inHand, hmessage] using hinHand.symm
        exact List.map_injective_iff.mpr (Option.some_injective _) hmap
      subst hone
      refine ⟨[], ?_, ?_⟩
      · rw [hall]
        simp [gotBy, taken]
      · rw [hwithin.self, hafter]
        rfl
    · refine ⟨rest, ?_, ?_⟩
      · rw [hall]
        by_cases hc : c = b
        · have hu : t ≠ u := fun hu => hself ⟨hc, hu.symm⟩
          simp [gotBy, taken, hc, hu]
        · simp [gotBy, taken, hc]
      · rw [hwithin.point hself, map_messageOf hmails]
        · exact hinHand
        · intro hmem
          have hplace := place_of_mem_inHand hplaced hmem
          rw [hmail] at hplace
          cases hplace
          exact hself ⟨rfl, rfl⟩
  · refine h.live_append ?_
    intro u c hevent
    cases hevent

/-- The postal worker makes a mail and calls `Append`. -/
theorem Boxes.makes
    {mail : MailId} {m : Mail} (h : Boxes site trace o)
    (hwithin : Within site o b site.postalWorker l o')
    (hmails : o'.mails = Function.update o.mails mail (some m))
    (hfresh : o.mails mail = none) (hlist : l.list = (o.boxes b).list)
    (hbefore : (o.boxes b).point site.postalWorker = .outside)
    (hafter : l.point site.postalWorker = .acquiring (.append mail)) :
    Boxes site (trace ++ [.made b m]) o' := by
  obtain ⟨place, hplaced, hfree⟩ := h.placed
  have hnone : place mail = none := (hfree mail).mpr hfresh
  have hmessage : o'.messageOf mail = some m.message := by
    simp [messageOf, hmails]
  have hmadeFor : ∀ c, madeFor c [Event.made b m] =
      if c = b then [m.message] else [] := by
    intro c
    by_cases hc : c = b
    · simp [madeFor, made, hc]
    · simp [madeFor, made, hc, Ne.symm hc]
  have hout : ∀ c, mail ∉ o.queue site c := by
    intro c hmem
    cases place_of_mem_queue hplaced hmem with
    | inl hbox =>
        rw [hnone] at hbox
        cases hbox
    | inr hworker =>
        rw [hnone] at hworker
        cases hworker
  refine ⟨hwithin.sound_boxes h, ?_, hwithin.calls h, ?_, ?_, ?_⟩
  · refine ⟨Function.update place mail (some (.heldBy site.postalWorker b)),
      ?_, ?_⟩
    · have hentered :=
        hplaced.enter (p := .heldBy site.postalWorker b) hnone
      have hempty : o.lists (.heldBy site.postalWorker b) = [] := by
        rw [lists, hbefore]
        rfl
      rw [hempty] at hentered
      rw [hwithin.lists_of_list hlist, hafter]
      exact hentered
    · exact free_of_update hfree hmails (by simp)
  · intro c
    obtain ⟨rest, hall, hqueued⟩ := h.queued c
    rw [madeFor_append, taken_append, hmadeFor]
    by_cases hc : c = b
    · subst hc
      refine ⟨rest ++ [m.message], ?_, ?_⟩
      · rw [hall]
        simp [taken]
      · have hqueue : o'.queue site c = o.queue site c ++ [mail] := by
          rw [queue, queue, hwithin.self, hlist, hafter, hbefore]
          simp [Point.offered]
        rw [hqueue, List.map_append, map_messageOf hmails (hout c), hqueued,
          List.map_append, List.map_singleton, List.map_singleton, hmessage]
    · refine ⟨rest, ?_, ?_⟩
      · rw [hall]
        simp [taken, hc]
      · rw [hwithin.queue_other hc, map_messageOf hmails (hout c)]
        exact hqueued
  · intro c u
    obtain ⟨rest, hall, hinHand⟩ := h.hands c u
    refine ⟨rest, ?_, ?_⟩
    · rw [taken_append, returned_append, gotBy_append, gotBy_append, hall]
      simp [gotBy, taken, returned]
    · by_cases hself : c = b ∧ u = site.postalWorker
      · obtain ⟨rfl, rfl⟩ := hself
        rw [hbefore] at hinHand
        rw [hwithin.self, hafter]
        exact hinHand
      · rw [hwithin.point hself, map_messageOf hmails]
        · exact hinHand
        · intro hmem
          have hplace := place_of_mem_inHand hplaced hmem
          rw [hnone] at hplace
          cases hplace
  · refine h.live_append ?_
    intro u c hevent
    cases hevent

/-! ## All steps -/

theorem within_of_go
    {happened : SynchList.Event MailId} (o' : PostOfficeInput) (h : Boxes site trace o)
    (hgo : (o.boxes b).step (.go t) = .ok (l, happened))
    (hboxes : o'.boxes = Function.update o.boxes b l) :
    Within site o b t l o' ∧
      SynchList.Flow (o.boxes b) t l happened := by
  obtain ⟨events, hsound⟩ := h.sound b
  have hsteps := SynchList.go_steps hsound hgo
  refine ⟨⟨hboxes, ⟨_, hsound.step hgo⟩, hsteps.others, ?_⟩, hsteps.flow⟩
  intro hinside
  have hbefore := h.calls b t (SynchList.inside_of_go hgo)
  cases hsteps.call with
  | inl hout => exact (hinside hout).elim
  | inr hsame =>
      rw [hsame]
      exact hbefore

/-- The postal worker does not remove anything. -/
theorem Boxes.appends_worker
    (h : Boxes site trace o)
    (hinside : (o.boxes b).point site.postalWorker ≠ .outside) :
    ((o.boxes b).point site.postalWorker).appends = true :=
  (h.calls b _ hinside).mpr rfl

/-- Nobody but the postal worker appends anything. -/
theorem Boxes.not_appends
    (h : Boxes site trace o) (ht : t ≠ site.postalWorker)
    (hinside : (o.boxes b).point t ≠ .outside) :
    ((o.boxes b).point t).appends = false := by
  rw [← Bool.not_eq_true, h.calls b t hinside]
  exact ht

/-- What is copied into the buffer of the caller of `Receive`. -/
theorem ofBytes_of_bcopy
    {m : Mail} {data data' : Buffer maxMailSize}
    (h : bcopy m.data.val data 0 m.mailHdr.length.toNat = .ok data') :
    Message.ofBytes m.pktHdr m.mailHdr data'.val = m.message := by
  have hlength : (m.data.val.take m.mailHdr.length.toNat).length =
      m.mailHdr.length.toNat := by
    refine List.length_take_of_le ?_
    rw [m.data.property]
    exact m.fits
  obtain ⟨copied, hcopied, hfront⟩ := bcopy_front data
    (List.take_prefix m.mailHdr.length.toNat m.data.val) hlength m.fits
  rw [h] at hcopied
  cases hcopied
  obtain ⟨rest, hrest⟩ := hfront
  rw [Message.ofBytes, ← hrest, List.take_left' hlength]
  rfl

theorem Move.boxes
    (hmove : Move site o event o') (h : Boxes site trace o) :
    Boxes site (trace ++ [event]) o' := by
  cases hmove with
  | arrives => exact h.same (aside_sent _) rfl rfl
  | polls => exact h.same aside_silent rfl rfl
  | fills => exact h.same aside_silent rfl rfl
  | blocks => exact h.same aside_silent rfl rfl
  | passes => exact h.same aside_silent rfl rfl
  | takes => exact h.same aside_silent rfl rfl
  | @makes pktHdr mailHdr mail memory m l happened hworker hfresh hnew hbox =>
      obtain ⟨hout, hlist, hafter, hothers, -⟩ :=
        SynchList.append_steps hbox
      obtain ⟨events, hsound⟩ := h.sound mailHdr.toAddress.toNat
      refine h.makes ⟨rfl, ⟨_, hsound.step hbox⟩, hothers, ?_⟩ rfl hfresh hlist
        hout hafter
      rw [hafter]
      simp [Point.appends]
  | @puts b l happened worker hworker hbox hnext =>
      obtain ⟨hwithin, hflow⟩ := within_of_go { o with
        boxes := Function.update o.boxes b l
        worker := worker } h hbox rfl
      cases hflow with
      | keeps hmoves hlist hoffered hinHand =>
          exact h.keeps hwithin aside_silent rfl hlist hoffered hinHand
      | inserts hlist hbefore hafter =>
          exact h.inserts hwithin aside_silent rfl hlist hbefore hafter
      | removes hlist hbefore =>
          have happends := h.appends_worker (b := b) (by simp [hbefore])
          simp [hbefore, Point.appends] at happends
      | returns hlist hbefore =>
          have happends := h.appends_worker (b := b) (by simp [hbefore])
          simp [hbefore, Point.appends] at happends
  | @calls t b data l happened ht hbox =>
      obtain ⟨hout, hlist, hafter, hothers, -⟩ :=
        SynchList.removeFront_steps hbox
      obtain ⟨events, hsound⟩ := h.sound b
      refine h.keeps ⟨rfl, ⟨_, hsound.step hbox⟩, hothers, ?_⟩ aside_silent rfl
        hlist ?_ ?_
      · rw [hafter]
        simp [Point.appends, ht]
      · rw [hafter, hout]
        rfl
      · rw [hafter, hout]
        rfl
  | @goes t b l happened ht hbox hother =>
      obtain ⟨hwithin, hflow⟩ := within_of_go { o with
        boxes := Function.update o.boxes b l } h hbox rfl
      cases hflow with
      | keeps hmoves hlist hoffered hinHand =>
          exact h.keeps hwithin aside_silent rfl hlist hoffered hinHand
      | inserts hlist hbefore =>
          have happends := h.not_appends (b := b) ht (by simp [hbefore])
          simp [hbefore, Point.appends] at happends
      | removes => exact ((hother t _).1 rfl).elim
      | returns => exact ((hother t _).2 rfl).elim
  | @waits t b w l happened hbox =>
      obtain ⟨events, hsound⟩ := h.sound b
      have hwaiting := SynchList.waiting_of_wait hbox
      obtain ⟨hothers, hcall, hflow⟩ := SynchList.wait_steps hsound hbox
      have hcalls := h.calls b t (by simp [hwaiting])
      cases hflow with
      | keeps hmoves hlist hoffered hinHand =>
          refine h.keeps ⟨rfl, ⟨_, hsound.step hbox⟩, hothers, ?_⟩ aside_silent
            rfl hlist hoffered hinHand
          intro hinside
          rw [hcall.resolve_left hinside]
          exact hcalls
      | inserts hlist hbefore => simp [hwaiting] at hbefore
      | removes hlist hbefore => simp [hwaiting] at hbefore
      | returns hlist hbefore => simp [hwaiting] at hbefore
  | @removes t u b mail l ht hbox =>
      obtain ⟨hwithin, hflow⟩ := within_of_go { o with
        boxes := Function.update o.boxes b l } h hbox rfl
      cases hflow with
      | keeps hmoves => cases hmoves
      | removes hlist hbefore hafter =>
          exact h.removes ht hwithin rfl hlist hbefore hafter
  | @returns t u b mail m data data' l ht hbox hm hcopied =>
      obtain ⟨hwithin, hflow⟩ := within_of_go { o with
        boxes := Function.update o.boxes b l
        mails := Function.update o.mails mail none
        receiver := Function.update o.receiver t none } h hbox rfl
      cases hflow with
      | keeps hmoves => cases hmoves
      | returns hlist hbefore hafter =>
          exact h.returns ht hwithin rfl hlist hbefore hafter hm
            (ofBytes_of_bcopy hcopied)

end Nachos.Scheduling.PostOfficeInput
