import IpfsGate.Reports.MiniRelay
import IpfsGate.Json
import Mathlib.Data.Finset.Card

/-!
# The client of the relays

The node subscribes on its relays for what is addressed to its reporting key, and hands the content
of each event on. It remembers the ids it has seen, up to a number at which it forgets them all. An
id is spent by the first event that carries it, before that event is verified.
-/
namespace IpfsGate.Reports

/-- What comes from other packages. -/
structure BoxClient where
  verifyEvent : NostrEvent → Bool
  parse : String → Except String Json

def escrowKind : Nat := 31337

def maxSeen : Nat := 5000

/-- The node asks for what is addressed to it. -/
def ownFilter (selfPub : String) : Filter :=
  { kinds := some [.num (.fin escrowKind)], p := some [.text selfPub] }

/-- `seenEventIds` once an id was added. -/
def remember (seen : Finset String) (id : String) : Finset String :=
  if maxSeen < (insert id seen).card then ∅ else insert id seen

namespace BoxClient

variable (c : BoxClient)

/-- `onevent`: what is handed to `onReceipt`, and the ids seen. -/
def onevent (seen : Finset String) (ev : NostrEvent) : Option Json × Finset String :=
  if ev.id ∈ seen then (none, seen)
  else if c.verifyEvent ev then ((c.parse ev.content).toOption, remember seen ev.id)
  else (none, remember seen ev.id)

/-- The events whose content is handed on, as they come in. -/
def handed (c : BoxClient) : Finset String → List NostrEvent → List NostrEvent
  | _, [] => []
  | seen, ev :: rest =>
    if (c.onevent seen ev).1.isSome then ev :: handed c (c.onevent seen ev).2 rest
    else handed c (c.onevent seen ev).2 rest

/-- The event carries a signature and content that parses. -/
def Accepts (ev : NostrEvent) : Prop :=
  c.verifyEvent ev = true ∧ ∃ payload, c.parse ev.content = .ok payload

def ids (stream : List NostrEvent) : Finset String := (stream.map NostrEvent.id).toFinset

@[simp] theorem ids_cons (ev : NostrEvent) (rest : List NostrEvent) :
    ids (ev :: rest) = insert ev.id (ids rest) := List.toFinset_cons

variable {c} {seen : Finset String} {ev : NostrEvent} {stream : List NostrEvent}

theorem onevent_seen (h : ev.id ∈ seen) : c.onevent seen ev = (none, seen) := if_pos h

theorem onevent_isSome (h : ev.id ∉ seen) : (c.onevent seen ev).1.isSome = true ↔ c.Accepts ev := by
  unfold onevent Accepts
  rw [if_neg h]
  cases hv : c.verifyEvent ev with
  | false => simp
  | true =>
    cases hp : c.parse ev.content with
    | error e => simp [Except.toOption]
    | ok payload => simp [Except.toOption]

theorem onevent_ids (h : ev.id ∉ seen) : (c.onevent seen ev).2 = remember seen ev.id := by
  unfold onevent
  rw [if_neg h]
  split <;> rfl

/-- Nothing is forgotten while the ids stay within the number. -/
theorem remember_of_le {id : String} (h : (insert id seen).card ≤ maxSeen) :
    remember seen id = insert id seen := if_neg (Nat.not_lt.mpr h)

/-- An event is handed on once, if it is the first one that carries its id, and else not at all. -/
theorem count_handed (haccepts : c.Accepts ev) (hcap : (seen ∪ ids stream).card ≤ maxSeen) :
    (c.handed seen stream).count ev =
      if ev.id ∉ seen ∧ stream.find? (fun e => e.id = ev.id) = some ev then 1 else 0 := by
  induction stream generalizing seen with
  | nil => simp [handed]
  | cons first rest ih =>
    rw [handed]
    by_cases hold : first.id ∈ seen
    · -- the id is spent already
      have hsub : seen ∪ ids (first :: rest) = seen ∪ ids rest := by
        rw [ids_cons, Finset.union_insert, Finset.insert_eq_self.mpr (Finset.mem_union_left _ hold)]
      rw [hsub] at hcap
      rw [onevent_seen hold]
      simp only [Option.isSome_none, Bool.false_eq_true, if_false]
      rw [ih hcap]
      by_cases hid : first.id = ev.id
      · simp [← hid, hold]
      · simp [hid]
    · have hunion : insert first.id seen ∪ ids rest = seen ∪ ids (first :: rest) := by
        rw [ids_cons, Finset.union_insert, Finset.insert_union]
      have hkeep : remember seen first.id = insert first.id seen := by
        refine remember_of_le (le_trans (Finset.card_le_card ?_) hcap)
        rw [← hunion]
        exact Finset.subset_union_left
      have hrest := @ih (insert first.id seen) (hunion ▸ hcap)
      rw [onevent_ids hold, hkeep]
      by_cases hfirst : first = ev
      · -- the first delivery, which spends the id
        have hout := (onevent_isSome (c := c) hold).mpr (hfirst ▸ haccepts)
        rw [hfirst] at hold hrest hout ⊢
        rw [if_pos hout, List.count_cons_self, hrest]
        simp [hold]
      · have hcount : ∀ out : Bool, (if out = true then first :: c.handed (insert first.id seen) rest
            else c.handed (insert first.id seen) rest).count ev =
            (c.handed (insert first.id seen) rest).count ev := by
          intro out
          cases out
          · rfl
          · exact List.count_cons_of_ne hfirst
        rw [hcount, hrest]
        by_cases hid : first.id = ev.id
        · -- another event spends the id
          simp [hid, hfirst]
        · simp [hid, Ne.symm hid]

end BoxClient

/-! ## From the relays to the node -/

/-- A relay that the node is subscribed on: what happened on it before the subscription, and
since. It has not gone down. -/
structure Link (selfPub : String) where
  before : List RelayStep
  after : List RelayStep
  conn : Nat
  subId : String
  relay : Relay
  final : Relay
  ran : Relay.boot.run before = some relay
  connected : (relay.client conn).isSome
  up : relay.run (.message conn (.req subId (some (ownFilter selfPub))) :: after) = some final
  lasting : ∀ e ∈ after, e.Spares conn subId

namespace Link

variable {selfPub : String} (l : Link selfPub)

/-- What the relay sends the node for its subscription. -/
def sent : List Sent := l.final.feed l.conn l.subId

/-- What happened since the node asked for its subscription. -/
def since : List RelayStep := .message l.conn (.req l.subId (some (ownFilter selfPub))) :: l.after

/-- The relay held the event when the node subscribed, or took it later. -/
def Carries (ev : NostrEvent) : Prop :=
  ev ∈ (Relay.boot.log l.before).rtake maxEvents ∨ ev ∈ l.relay.log l.since

theorem sent_of_carries {l : Link selfPub} {ev : NostrEvent} (h : l.Carries ev)
    (haddressed : selects (some (ownFilter selfPub)) ev = true) :
    .event l.subId ev ∈ l.sent := by
  rw [sent, (subscribed_run l.ran l.connected l.up l.lasting).feed_eq]
  have hdelivered : ∀ events : List NostrEvent, ev ∈ events →
      .event l.subId ev ∈ delivered l.subId (some (ownFilter selfPub)) events :=
    fun events hev => List.mem_map_of_mem (List.mem_filter.mpr ⟨hev, haddressed⟩)
  rcases h with h | h
  · exact List.mem_append_left _ (List.mem_append_left _ (List.mem_append_right _ (hdelivered _ h)))
  · exact List.mem_append_right _ (hdelivered _ h)

end Link

/-- Let the node hear what its relays send it while they are up, in any order and as often as they
like. An event that is addressed to it and is carried by one of the relays, and that verifies and
parses, comes in; and it is handed on exactly once, unless another event came in before it under
its id. -/
theorem receipt_handed_once (c : BoxClient) {selfPub : String} (links : List (Link selfPub))
    (stream : List NostrEvent)
    (hstream : ∀ e, e ∈ stream ↔ ∃ l ∈ links, .event l.subId e ∈ l.sent)
    (hcap : (BoxClient.ids stream).card ≤ maxSeen) (ev : NostrEvent)
    (hcarried : ∃ l ∈ links, l.Carries ev)
    (haddressed : selects (some (ownFilter selfPub)) ev = true) (haccepts : c.Accepts ev) :
    ev ∈ stream ∧ (c.handed ∅ stream).count ev =
      if stream.find? (fun e => e.id = ev.id) = some ev then 1 else 0 := by
  constructor
  · obtain ⟨l, hl, hcarries⟩ := hcarried
    exact (hstream ev).mpr ⟨l, hl, Link.sent_of_carries hcarries haddressed⟩
  · rw [BoxClient.count_handed haccepts (by rwa [Finset.empty_union])]
    simp

/-- The node's relay took one event before the node subscribed and one after. -/
def sampleLink : Link "node" where
  before := publishedEarly
  after := publishedLate
  conn := 0
  subId := "sub"
  relay := relayBefore
  final := relayAfter
  ran := rfl
  connected := rfl
  up := rfl
  lasting := by
    intro e he
    rw [List.mem_singleton.mp he]
    trivial

/-- Everything verifies, and parses as nothing. -/
def sampleClient : BoxClient where
  verifyEvent := fun _ => true
  parse := fun _ => .ok .null

def heardTwice : List NostrEvent :=
  [sampleReceipt "late", sampleReceipt "early", sampleReceipt "late"]

theorem receipt_handed_once_of_two : sampleReceipt "late" ∈ heardTwice ∧
    (sampleClient.handed ∅ heardTwice).count (sampleReceipt "late") = 1 := by
  refine receipt_handed_once sampleClient [sampleLink] heardTwice ?_ (by decide)
    (sampleReceipt "late") ⟨sampleLink, List.mem_cons_self, Or.inr (by decide)⟩ (by decide)
    ⟨rfl, .null, rfl⟩
  have hsent : sampleLink.sent = [.event "sub" (sampleReceipt "early"), .eose "sub",
      .event "sub" (sampleReceipt "late")] := by decide
  intro e
  constructor
  · intro he
    refine ⟨sampleLink, List.mem_cons_self, ?_⟩
    rw [hsent]
    simp only [heardTwice, List.mem_cons, List.not_mem_nil, or_false] at he
    rcases he with rfl | rfl | rfl <;> decide
  · rintro ⟨l, hl, he⟩
    rw [List.mem_singleton.mp hl, hsent] at he
    simp only [sampleLink, List.mem_cons, Sent.event.injEq, reduceCtorEq, List.not_mem_nil,
      or_false, false_or, true_and] at he
    rcases he with rfl | rfl <;> decide

end IpfsGate.Reports
