import IpfsGate.Lib.Table
import IpfsGate.Lib.Decimal
import Mathlib.Data.List.DropRight

/-!
# The relay

An in-memory relay for reports and receipts. It keeps the latest events, answers a subscription
with those of them that match and sends it every matching event that is published from then on.
Tags that it cannot read throw where a filter asks for them, and nothing catches that: the process
is gone.
-/
namespace IpfsGate.Reports

open Lib (Named Number Register)

/-- A value of a message as `includes` compares it: a list or an object equals no other. -/
inductive Scalar where
  | undefined
  | null
  | bool (b : Bool)
  | num (x : Number)
  | text (s : String)
  | compound
deriving DecidableEq

/-- A tag, as far as the relay looks into it: `t[0]` and `t[1]`, which throw on null. -/
inductive Tag where
  | null
  | entry (name value : Scalar)
deriving DecidableEq

/-- The `tags` of an event: something falsy, a list, or something that has no `filter`. -/
inductive Tags where
  | none
  | list (tags : List Tag)
  | other
deriving DecidableEq

/-- `id` is empty when it is falsy. -/
structure NostrEvent where
  id : String
  pubkey : String
  createdAt : Int
  kind : Scalar
  tags : Tags
  content : String
  sig : String
deriving DecidableEq

/-- The fields of a filter that are lists; others are not looked at. -/
structure Filter where
  kinds : Option (List Scalar)
  p : Option (List Scalar)

structure Subscription where
  subId : String
  /-- Absent when it is not an object. -/
  filter : Option Filter

instance instNamedSubscription : Named Subscription String := ⟨Subscription.subId⟩

abbrev Subs := Register Subscription

/-- A message of a client, as far as the relay looks into it. -/
inductive Message where
  | event (ev : NostrEvent)
  | req (subId : String) (filter : Option Filter)
  | close (subId : String)
  | other

/-- A message of the relay. -/
inductive Sent where
  | ok (id : String)
  | event (subId : String) (ev : NostrEvent)
  | eose (subId : String)
deriving DecidableEq

def Sent.subId : Sent → Option String
  | .ok _ => none
  | .event subId _ => some subId
  | .eose subId => some subId

/-- A connection: its subscriptions, and what it has been sent. -/
structure Client where
  conn : Nat
  subs : Subs
  sent : List Sent

instance instNamedClient : Named Client Nat := ⟨Client.conn⟩

structure Relay where
  events : List NostrEvent
  clients : Register Client

def Relay.boot : Relay := { events := [], clients := Register.empty }

def Relay.client (relay : Relay) (conn : Nat) : Option Client :=
  relay.clients.find? (fun c => c.conn = conn)

def maxEvents : Nat := 5000

def includes (values : List Scalar) (v : Scalar) : Bool := v ≠ .compound && values.contains v

/-- The values of the `p` tags of an event, unless reading them throws. -/
def pValues (ev : NostrEvent) : Option (List Scalar) :=
  match ev.tags with
  | .none => some []
  | .other => none
  | .list tags =>
    if tags.contains .null then none
    else
      some (tags.filterMap (fun
        | .entry (.text "p") value => some value
        | _ => none))

/-- `none` where it throws. The tags are read when the kind matches and the filter asks for them. -/
def «matches» : Option Filter → NostrEvent → Option Bool
  | none, _ => some false
  | some filter, ev =>
    if filter.kinds.any (fun kinds => !includes kinds ev.kind) then some false
    else
      match filter.p with
      | none => some true
      | some wanted => (pValues ev).map (fun ps => wanted.any (includes ps))

def selects (filter : Option Filter) (ev : NostrEvent) : Bool := «matches» filter ev = some true

/-- `subs.set`, which keeps the place of a subscription that is there. -/
def Subs.set (subs : Subs) (subId : String) (filter : Option Filter) : Subs :=
  Register.insertNew
    (subs.update (fun s => s.subId = subId) (fun s => { s with filter }) (fun _ => rfl))
    { subId, filter }

def Client.send (client : Client) (messages : List Sent) : Client :=
  { client with sent := client.sent ++ messages }

/-- An event goes to each subscription that it matches. -/
def Client.fanOut (ev : NostrEvent) (client : Client) : Client :=
  client.send ((client.subs.rows.filter (fun s => selects s.filter ev)).map
    (fun s => .event s.subId ev))

def keepEvent (events : List NostrEvent) (ev : NostrEvent) : List NostrEvent :=
  if maxEvents < (events ++ [ev]).length then (events ++ [ev]).tail else events ++ [ev]

/-- A change of one connection. -/
def Relay.update (relay : Relay) (conn : Nat) (f : Client → Client)
    (hf : ∀ c, (f c).conn = c.conn) : Relay :=
  { relay with clients := relay.clients.update (fun c => c.conn = conn) f hf }

/-- Every subscription of every connection is asked whether the event matches. -/
def Relay.fanOut (relay : Relay) (ev : NostrEvent) : Option Relay :=
  if relay.clients.rows.all
      (fun c => c.subs.rows.all (fun s => («matches» s.filter ev).isSome)) then
    some { relay with
      clients := relay.clients.update (fun _ => true) (Client.fanOut ev) (fun _ => rfl) }
  else none

/-- What a message of a connection does; an event without an id is not taken. `none` where
`matches` throws. -/
def Relay.receive (relay : Relay) (conn : Nat) : Message → Option Relay
  | .event ev =>
    if ev.id = "" then some relay
    else
      let acked := relay.update conn (Client.send · [.ok ev.id]) (fun _ => rfl)
      Relay.fanOut { acked with events := keepEvent relay.events ev } ev
  | .req subId filter =>
    if relay.events.all (fun ev => («matches» filter ev).isSome) then
      let stored := (relay.events.filter (selects filter)).map (Sent.event subId)
      some (relay.update conn
        (fun c => { c.send (stored ++ [.eose subId]) with subs := c.subs.set subId filter })
        (fun _ => rfl))
    else none
  | .close subId =>
    some (relay.update conn (fun c => { c with subs := c.subs.erase subId }) (fun _ => rfl))
  | .other => some relay

inductive RelayStep where
  | connect (conn : Nat)
  | message (conn : Nat) (m : Message)
  | disconnect (conn : Nat)

/-- A connection is new; nothing is sent to one that is gone. -/
def Relay.step (relay : Relay) : RelayStep → Option Relay
  | .connect conn =>
    some { relay with
      clients := relay.clients.insertNew { conn, subs := Register.empty, sent := [] } }
  | .message conn m => if (relay.client conn).isSome then relay.receive conn m else some relay
  | .disconnect conn => some { relay with clients := relay.clients.erase conn }

/-- The relay after the steps, if it is still up. -/
def Relay.run (relay : Relay) (steps : List RelayStep) : Option Relay :=
  steps.foldlM Relay.step relay

/-! ## What the relay keeps -/

/-- The event that the relay takes in a step. -/
def Relay.taken (relay : Relay) : RelayStep → Option NostrEvent
  | .message conn (.event ev) =>
    if (relay.client conn).isSome && ev.id ≠ "" then some ev else none
  | _ => none

/-- The events that the relay takes in a run. -/
def Relay.log (relay : Relay) : List RelayStep → List NostrEvent
  | [] => []
  | e :: rest => (relay.taken e).toList ++ (relay.step e).elim [] (fun next => next.log rest)

theorem run_cons (relay : Relay) (e : RelayStep) (rest : List RelayStep) :
    relay.run (e :: rest) = (relay.step e).bind (fun next => next.run rest) := rfl

theorem log_cons {relay next : Relay} {e : RelayStep} (h : relay.step e = some next)
    (rest : List RelayStep) :
    relay.log (e :: rest) = (relay.taken e).toList ++ next.log rest := by
  rw [Relay.log, h]
  rfl

theorem keepEvent_rtake (log : List NostrEvent) (ev : NostrEvent) :
    keepEvent (log.rtake maxEvents) ev = (log ++ [ev]).rtake maxEvents := by
  have hcap : 0 < maxEvents := by decide
  unfold keepEvent List.rtake
  generalize maxEvents = cap at hcap
  simp only [List.length_append, List.length_drop, List.length_singleton]
  by_cases hfull : cap ≤ log.length
  · -- the oldest of the kept events goes
    rw [if_pos (by omega), ← List.drop_one, List.drop_append_of_le_length (by simp; omega),
      List.drop_drop, List.drop_append_of_le_length (by omega)]
    congr 2
    omega
  · have hall : log.length - cap = 0 := by omega
    have hall' : log.length + 1 - cap = 0 := by omega
    rw [if_neg (by omega), hall, hall']
    rfl

/-- Kept one after another, the latest of the events are left. -/
theorem foldl_keepEvent (log : List NostrEvent) :
    log.foldl keepEvent [] = log.rtake maxEvents := by
  induction log using List.reverseRecOn with
  | nil => rfl
  | append_singleton log ev ih => rw [List.foldl_append, ih, List.foldl_cons, List.foldl_nil,
      keepEvent_rtake]

theorem fanOut_some {relay next : Relay} {ev : NostrEvent} (h : relay.fanOut ev = some next) :
    next = { relay with
      clients := relay.clients.update (fun _ => true) (Client.fanOut ev) (fun _ => rfl) } := by
  unfold Relay.fanOut at h
  split at h
  · exact (Option.some.inj h).symm
  · cases h

/-- A step keeps the event it takes. -/
theorem step_events {relay next : Relay} {e : RelayStep} (h : relay.step e = some next) :
    next.events = (relay.taken e).toList.foldl keepEvent relay.events := by
  cases e with
  | connect conn =>
    cases h
    rfl
  | disconnect conn =>
    cases h
    rfl
  | message conn m =>
    cases hclient : (relay.client conn).isSome with
    | false =>
      rw [Relay.step, hclient] at h
      cases h
      cases m <;> simp [Relay.taken, hclient]
    | true =>
      simp only [Relay.step, hclient, if_true] at h
      cases m with
      | event ev =>
        by_cases hid : ev.id = ""
        · rw [Relay.receive, if_pos hid] at h
          cases h
          simp [Relay.taken, hid]
        · rw [Relay.receive, if_neg hid] at h
          rw [fanOut_some h]
          simp [Relay.taken, hclient, hid]
      | req subId filter =>
        rw [Relay.receive] at h
        split at h
        · cases h
          rfl
        · cases h
      | close subId =>
        cases h
        rfl
      | other =>
        cases h
        rfl

/-- A run keeps the latest of the events that it takes. -/
theorem run_events {relay final : Relay} {steps : List RelayStep}
    (h : relay.run steps = some final) :
    final.events = (relay.log steps).foldl keepEvent relay.events := by
  induction steps generalizing relay with
  | nil =>
    cases h
    rfl
  | cons e rest ih =>
    obtain ⟨next, hstep, hrest⟩ := Option.bind_eq_some_iff.mp (run_cons relay e rest ▸ h)
    rw [ih hrest, step_events hstep, log_cons hstep, List.foldl_append]

/-! ## When the relay stays up -/

/-- The tags are none, or a list without null. -/
def NostrEvent.Readable (ev : NostrEvent) : Prop := (pValues ev).isSome

def RelayStep.Readable : RelayStep → Prop
  | .message _ (.event ev) => ev.Readable
  | _ => True

theorem NostrEvent.Readable.asked {ev : NostrEvent} (h : ev.Readable)
    (filter : Option Filter) : («matches» filter ev).isSome := by
  cases filter with
  | none => rfl
  | some filter =>
    unfold «matches»
    dsimp only
    split
    · rfl
    · cases filter.p with
      | none => rfl
      | some wanted => exact (Option.isSome_map ..).trans h

/-- While the events can be read, nothing throws. -/
theorem step_up {relay : Relay} {e : RelayStep} (hread : ∀ ev ∈ relay.events, ev.Readable)
    (he : e.Readable) : ∃ next, relay.step e = some next ∧ ∀ ev ∈ next.events, ev.Readable := by
  have hup : ∃ next, relay.step e = some next := by
    cases e with
    | connect conn => exact ⟨_, rfl⟩
    | disconnect conn => exact ⟨_, rfl⟩
    | message conn m =>
      rw [Relay.step]
      split
      swap
      · exact ⟨_, rfl⟩
      cases m with
      | event ev =>
        rw [Relay.receive]
        split
        · exact ⟨_, rfl⟩
        · refine ⟨_, if_pos ?_⟩
          simp only [List.all_eq_true]
          exact fun c _ s _ => NostrEvent.Readable.asked he s.filter
      | req subId filter =>
        refine ⟨_, if_pos ?_⟩
        rw [List.all_eq_true]
        exact fun ev hev => (hread ev hev).asked filter
      | close subId => exact ⟨_, rfl⟩
      | other => exact ⟨_, rfl⟩
  obtain ⟨next, hstep⟩ := hup
  refine ⟨next, hstep, fun ev hev => ?_⟩
  rw [step_events hstep] at hev
  cases htaken : relay.taken e with
  | none =>
    rw [htaken] at hev
    exact hread ev hev
  | some new =>
    rw [htaken] at hev
    have hkept : ev ∈ relay.events ++ [new] := by
      change ev ∈ keepEvent relay.events new at hev
      unfold keepEvent at hev
      split at hev
      · exact List.mem_of_mem_tail hev
      · exact hev
    rcases List.mem_append.mp hkept with hold | hnew
    · exact hread ev hold
    · rw [List.mem_singleton] at hnew
      subst hnew
      cases e with
      | message conn m =>
        cases m with
        | event _ =>
          obtain ⟨_, heq⟩ := Option.ite_none_right_eq_some.mp htaken
          cases heq
          exact he
        | _ => cases htaken
      | _ => cases htaken

/-- The relay stays up in every run whose events can be read. -/
theorem run_up {relay : Relay} {steps : List RelayStep} (hread : ∀ ev ∈ relay.events, ev.Readable)
    (hsteps : ∀ e ∈ steps, e.Readable) :
    ∃ final, relay.run steps = some final ∧ ∀ ev ∈ final.events, ev.Readable := by
  induction steps generalizing relay with
  | nil => exact ⟨relay, rfl, hread⟩
  | cons e rest ih =>
    obtain ⟨next, hstep, hnext⟩ := step_up hread (hsteps e List.mem_cons_self)
    obtain ⟨final, hrun, hfinal⟩ := ih hnext (fun e' he' => hsteps e' (List.mem_cons_of_mem _ he'))
    exact ⟨final, by rw [run_cons, hstep]; exact hrun, hfinal⟩

/-! ## What a subscription receives -/

def Client.feed (client : Client) (subId : String) : List Sent :=
  client.sent.filter (fun m => m.subId = some subId)

/-- What a connection has been sent for a subscription. -/
def Relay.feed (relay : Relay) (conn : Nat) (subId : String) : List Sent :=
  (relay.client conn).elim [] (fun client => client.feed subId)

/-- The step neither ends nor replaces the subscription. -/
def RelayStep.Spares (conn : Nat) (subId : String) : RelayStep → Prop
  | .message c (.req s _) => c = conn → s ≠ subId
  | .message c (.close s) => c = conn → s ≠ subId
  | .disconnect c => c ≠ conn
  | _ => True

/-- The connection has the subscription, and has received so much for it. -/
def Subscribed (relay : Relay) (conn : Nat) (subId : String) (filter : Option Filter)
    (received : List Sent) : Prop :=
  ∃ client, relay.client conn = some client ∧
    client.subs.find? (fun s => s.subId = subId) = some { subId, filter } ∧
    client.feed subId = received

/-- What a subscription receives of the events. -/
def delivered (subId : String) (filter : Option Filter) (events : List NostrEvent) : List Sent :=
  (events.filter (selects filter)).map (Sent.event subId)

theorem find?_set (subs : Subs) (subId k : String) (filter : Option Filter) :
    (subs.set subId filter).find? (fun s => s.subId = k) =
      if k = subId then some { subId, filter } else subs.find? (fun s => s.subId = k) := by
  have hupdate := Register.find?_update subs (p := fun s => s.subId = subId)
    (f := fun s => { s with filter }) (fun _ => rfl) k
  show Register.find? (Register.insertNew _ _) _ = _
  refine (Register.find?_insertNew _ _ k).trans ?_
  rw [hupdate]
  show (Option.map _ (subs.find? (fun s => s.subId = k))).or (if subId = k then _ else _) = _
  cases hfound : subs.find? (fun s => s.subId = k) with
  | none => simp [eq_comm]
  | some s =>
    have hid : s.subId = k := by simpa using List.find?_some hfound
    by_cases hk : k = subId
    · simp [hid, hk]
    · simp [hid, hk]

@[simp] theorem delivered_nil (subId : String) (filter : Option Filter) :
    delivered subId filter [] = [] := rfl

@[simp] theorem delivered_append (subId : String) (filter : Option Filter)
    (events rest : List NostrEvent) :
    delivered subId filter (events ++ rest) =
      delivered subId filter events ++ delivered subId filter rest := by
  simp [delivered]

@[simp] theorem feed_send (client : Client) (messages : List Sent) (subId : String) :
    (client.send messages).feed subId =
      client.feed subId ++ messages.filter (fun m => m.subId = some subId) :=
  List.filter_append ..

/-- Of what an event sends around, a subscription receives the event if it matches. -/
theorem feed_fanOut {client : Client} {subId : String} {filter : Option Filter}
    (h : client.subs.find? (fun s => s.subId = subId) = some { subId, filter }) (ev : NostrEvent) :
    (client.fanOut ev).feed subId = client.feed subId ++ delivered subId filter [ev] := by
  have hown : client.subs.rows.filter (fun s => s.subId = subId) = [{ subId, filter }] := by
    have hrows := Register.filter_name client.subs subId
    rw [show (client.subs.find? (fun r => Named.name r = subId)) = _ from h] at hrows
    exact hrows
  have hmine : ∀ s : Subscription, decide ((Sent.event s.subId ev).subId = some subId) =
      decide (s.subId = subId) := fun s => by simp [Sent.subId]
  rw [Client.fanOut, feed_send, List.filter_map]
  congr 1
  show ((client.subs.rows.filter _).filter (fun s => decide ((Sent.event s.subId ev).subId =
    some subId))).map _ = _
  rw [funext hmine, List.filter_comm, hown]
  by_cases hmatch : selects filter ev = true
  · simp [hmatch, delivered]
  · simp [hmatch, delivered]

/-- A change of one connection is seen by that one. -/
theorem client_update (relay : Relay) (c conn : Nat) {f : Client → Client}
    (hf : ∀ client, (f client).conn = client.conn) :
    (relay.update c f hf).client conn =
      (relay.client conn).map (fun client => if conn = c then f client else client) := by
  have hfind := Register.find?_update relay.clients (p := fun client => client.conn = c) hf conn
  refine Eq.trans hfind ?_
  show (relay.client conn).map _ = _
  cases hclient : relay.client conn with
  | none => rfl
  | some client =>
    have hconn : client.conn = conn := by simpa using List.find?_some hclient
    simp [hconn]

theorem client_fanOut {relay next : Relay} {ev : NostrEvent} (h : relay.fanOut ev = some next)
    (conn : Nat) : next.client conn = (relay.client conn).map (Client.fanOut ev) := by
  rw [fanOut_some h]
  have hfind := Register.find?_update relay.clients (p := fun _ => true) (f := Client.fanOut ev)
    (fun _ => rfl) conn
  exact hfind

section Feeds

variable {relay next : Relay} {conn : Nat} {subId : String} {filter : Option Filter}
  {received : List Sent}

theorem Subscribed.feed_eq (h : Subscribed relay conn subId filter received) :
    relay.feed conn subId = received := by
  obtain ⟨client, hclient, _, hfeed⟩ := h
  rw [Relay.feed, hclient]
  exact hfeed

/-- A change of a connection that leaves the subscription and its feed alone. -/
theorem Subscribed.update (h : Subscribed relay conn subId filter received) {c : Nat}
    {f : Client → Client} (hf : ∀ client, (f client).conn = client.conn)
    (hkeeps : c = conn → ∀ client,
      (f client).subs.find? (fun s => s.subId = subId) =
        client.subs.find? (fun s => s.subId = subId) ∧
      (f client).feed subId = client.feed subId) :
    Subscribed (relay.update c f hf) conn subId filter received := by
  obtain ⟨client, hclient, hfound, hfeed⟩ := h
  by_cases heq : c = conn
  · obtain ⟨hsubs, hsame⟩ := hkeeps heq client
    refine ⟨f client, ?_, hsubs.trans hfound, hsame.trans hfeed⟩
    rw [client_update, hclient, Option.map_some, if_pos heq.symm]
  · refine ⟨client, ?_, hfound, hfeed⟩
    rw [client_update, hclient, Option.map_some, if_neg (Ne.symm heq)]

/-- An event that is sent around reaches the subscription if it matches. -/
theorem Subscribed.fanOut (h : Subscribed relay conn subId filter received) {ev : NostrEvent}
    (hnext : relay.fanOut ev = some next) :
    Subscribed next conn subId filter (received ++ delivered subId filter [ev]) := by
  obtain ⟨client, hclient, hfound, hfeed⟩ := h
  refine ⟨client.fanOut ev, ?_, hfound, ?_⟩
  · rw [client_fanOut hnext, hclient]
    rfl
  · rw [feed_fanOut hfound, hfeed]

/-- A step that spares the subscription sends it the event it takes, if it matches. -/
theorem Subscribed.step (h : Subscribed relay conn subId filter received) {e : RelayStep}
    (hspare : e.Spares conn subId) (hstep : relay.step e = some next) :
    Subscribed next conn subId filter
      (received ++ delivered subId filter (relay.taken e).toList) := by
  have hnone : ∀ {received : List Sent}, received ++ delivered subId filter
      (none : Option NostrEvent).toList = received := fun {_} => List.append_nil _
  cases e with
  | connect c =>
    cases hstep
    rw [show relay.taken _ = none from rfl, hnone]
    obtain ⟨client, hclient, hfound, hfeed⟩ := h
    refine ⟨client, ?_, hfound, hfeed⟩
    refine (Register.find?_insertNew _ _ conn).trans ?_
    rw [show relay.clients.find? (fun c => Named.name c = conn) = some client from hclient]
    rfl
  | disconnect c =>
    cases hstep
    rw [show relay.taken _ = none from rfl, hnone]
    obtain ⟨client, hclient, hfound, hfeed⟩ := h
    refine ⟨client, ?_, hfound, hfeed⟩
    refine (Register.find?_erase _ c conn).trans ?_
    rw [if_neg (Ne.symm hspare)]
    exact hclient
  | message c m =>
    rw [Relay.step] at hstep
    split at hstep
    swap
    · rename_i hgone
      cases hstep
      have htaken : relay.taken (.message c m) = none := by
        cases m <;> simp [Relay.taken, hgone]
      rw [htaken, hnone]
      exact h
    rename_i hthere
    cases m with
    | event ev =>
      rw [Relay.receive] at hstep
      split at hstep
      · rename_i hid
        cases hstep
        rw [show relay.taken (.message c (.event ev)) = none by simp [Relay.taken, hid], hnone]
        exact h
      · rename_i hid
        rw [show relay.taken (.message c (.event ev)) = some ev by
          simp [Relay.taken, hid, hthere]]
        have hacked : Subscribed (relay.update c (Client.send · [.ok ev.id]) (fun _ => rfl)) conn
            subId filter received := by
          refine h.update _ (fun _ client => ⟨rfl, ?_⟩)
          rw [feed_send]
          exact List.append_nil _
        exact Subscribed.fanOut (by exact hacked) hstep
    | req s f =>
      rw [Relay.receive] at hstep
      split at hstep
      swap
      · cases hstep
      cases hstep
      rw [show relay.taken _ = none from rfl, hnone]
      refine h.update _ (fun heq client => ?_)
      have hne : ¬ s = subId := hspare heq
      constructor
      · rw [find?_set, if_neg (Ne.symm hne)]
      · show (client.send _).feed subId = client.feed subId
        rw [feed_send]
        simp [Sent.subId, hne, List.filter_map, Function.comp_def]
    | close s =>
      cases hstep
      rw [show relay.taken _ = none from rfl, hnone]
      refine h.update _ (fun heq client => ⟨?_, rfl⟩)
      have hne : ¬ s = subId := hspare heq
      show (client.subs.erase s).find? (fun r => Named.name r = subId) = _
      rw [Register.find?_erase, if_neg (Ne.symm hne)]
      rfl
    | other =>
      cases hstep
      rw [show relay.taken _ = none from rfl, hnone]
      exact h

/-- While it lasts, a subscription receives every event that matches, in the order of the log. -/
theorem Subscribed.run (h : Subscribed relay conn subId filter received) {final : Relay}
    {steps : List RelayStep} (hspare : ∀ e ∈ steps, e.Spares conn subId)
    (hrun : relay.run steps = some final) :
    Subscribed final conn subId filter
      (received ++ delivered subId filter (relay.log steps)) := by
  induction steps generalizing relay received with
  | nil =>
    cases hrun
    rw [Relay.log, delivered_nil, List.append_nil]
    exact h
  | cons e rest ih =>
    obtain ⟨next, hstep, hrest⟩ := Option.bind_eq_some_iff.mp (run_cons relay e rest ▸ hrun)
    rw [log_cons hstep, delivered_append, ← List.append_assoc]
    exact ih (h.step (hspare e List.mem_cons_self) hstep)
      (fun e' he' => hspare e' (List.mem_cons_of_mem _ he')) hrest

/-- A request opens the subscription with the stored events that match, and an end mark. -/
theorem subscribed_req (h : (relay.client conn).isSome)
    (hstep : relay.step (.message conn (.req subId filter)) = some next) :
    Subscribed next conn subId filter
      (relay.feed conn subId ++ delivered subId filter relay.events ++ [.eose subId]) := by
  obtain ⟨client, hclient⟩ := Option.isSome_iff_exists.mp h
  rw [Relay.step, if_pos h, Relay.receive] at hstep
  split at hstep
  swap
  · cases hstep
  cases hstep
  refine ⟨{ client.send (delivered subId filter relay.events ++ [.eose subId]) with
    subs := client.subs.set subId filter }, ?_, ?_, ?_⟩
  · refine (client_update relay conn conn _).trans ?_
    rw [hclient, Option.map_some, if_pos rfl]
    rfl
  · show Register.find? (client.subs.set subId filter) _ = _
    rw [find?_set, if_pos rfl]
  · show (client.send _).feed subId = _
    rw [feed_send, Relay.feed, hclient]
    simp [delivered, Sent.subId, List.filter_map, Function.comp_def]

theorem subscribed_run {before after : List RelayStep} {final : Relay}
    (hbefore : Relay.boot.run before = some relay) (hconn : (relay.client conn).isSome)
    (hafter : relay.run (.message conn (.req subId filter) :: after) = some final)
    (hspare : ∀ e ∈ after, e.Spares conn subId) :
    Subscribed final conn subId filter
      (relay.feed conn subId ++
        delivered subId filter ((Relay.boot.log before).rtake maxEvents) ++ [.eose subId] ++
        delivered subId filter (relay.log (.message conn (.req subId filter) :: after))) := by
  obtain ⟨opened, hopen, hrest⟩ := Option.bind_eq_some_iff.mp (run_cons relay _ after ▸ hafter)
  have hopened : Subscribed opened conn subId filter _ := subscribed_req hconn hopen
  rw [run_events hbefore, show Relay.boot.events = [] from rfl, foldl_keepEvent] at hopened
  rw [log_cons hopen]
  exact hopened.run hspare hrest

end Feeds

/-- A subscription that is opened after any run of the relay, and that lasts while the relay is up,
receives the events that match: of those taken before it, the latest that the relay keeps, then the
end mark, then each one as it is taken. None is missed in between, none comes twice and their order
is kept. The relay is up while the tags of the events can be read. -/
theorem subscription_fed (before after : List RelayStep) (conn : Nat) (subId : String)
    (filter : Option Filter) (hspare : ∀ e ∈ after, e.Spares conn subId) :
    (∀ relay final, Relay.boot.run before = some relay → (relay.client conn).isSome →
      relay.run (.message conn (.req subId filter) :: after) = some final →
      final.feed conn subId =
        relay.feed conn subId ++
          delivered subId filter ((Relay.boot.log before).rtake maxEvents) ++ [.eose subId] ++
          delivered subId filter (relay.log (.message conn (.req subId filter) :: after))) ∧
      ((∀ e ∈ before ++ after, e.Readable) → ∃ relay final, Relay.boot.run before = some relay ∧
        relay.run (.message conn (.req subId filter) :: after) = some final) := by
  refine ⟨fun relay final hbefore hconn hafter => ?_, fun hread => ?_⟩
  · exact (subscribed_run hbefore hconn hafter hspare).feed_eq
  · obtain ⟨hfirst, hlast⟩ := List.forall_mem_append.mp hread
    have hboot : ∀ ev ∈ Relay.boot.events, ev.Readable := fun _ hev => absurd hev List.not_mem_nil
    obtain ⟨relay, hbefore, hkept⟩ := run_up hboot hfirst
    obtain ⟨final, hafter, -⟩ := run_up hkept
      (List.forall_mem_cons.mpr ⟨trivial, hlast⟩ : ∀ e ∈ .message conn (.req subId filter) :: after,
        RelayStep.Readable e)
    exact ⟨relay, final, hbefore, hafter⟩

/-- A receipt of the box for the node. -/
def sampleReceipt (id : String) : NostrEvent where
  id := id
  pubkey := "box"
  createdAt := 0
  kind := .num (.fin 31337)
  tags := .list [.entry (.text "t") (.text "escrow-protocol"), .entry (.text "p") (.text "node")]
  content := "receipt"
  sig := "signature"

def sampleFilter : Option Filter :=
  some { kinds := some [.num (.fin 31337)], p := some [.text "node"] }

/-- The box publishes before the node subscribes. -/
def publishedEarly : List RelayStep :=
  [.connect 0, .connect 1, .message 1 (.event (sampleReceipt "early"))]

def publishedLate : List RelayStep := [.message 1 (.event (sampleReceipt "late"))]

def relayBefore : Relay := (Relay.boot.run publishedEarly).get (by decide)

def relayAfter : Relay :=
  (relayBefore.run (.message 0 (.req "sub" sampleFilter) :: publishedLate)).get (by decide)

theorem subscription_fed_twice : relayAfter.feed 0 "sub" =
    [.event "sub" (sampleReceipt "early"), .eose "sub", .event "sub" (sampleReceipt "late")] := by
  have hspare : ∀ e ∈ publishedLate, e.Spares 0 "sub" := by
    intro e he
    rw [List.mem_singleton.mp he]
    trivial
  exact ((subscription_fed publishedEarly publishedLate 0 "sub" sampleFilter hspare).1
    relayBefore relayAfter rfl rfl rfl).trans (by decide)

/-- A tag that is null takes the relay down, as soon as a subscription asks for the tags. -/
example : (Relay.boot.run [.connect 0, .message 0 (.req "sub" sampleFilter),
    .message 0 (.event { sampleReceipt "bad" with tags := .list [.null] })]).isNone = true := by
  decide

end IpfsGate.Reports
