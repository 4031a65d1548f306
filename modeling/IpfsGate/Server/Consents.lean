import IpfsGate.Lib.History
import IpfsGate.Server.Orders
import IpfsGate.Server.Releases

/-!
# Requests that release an order

A release or a receipt is decided in the turn in which the chain answers for the account's keys.
The accounts whose requests are accepted are noted along the run, and the order's claim is ended
by the first of them that meets the policy.
-/
namespace IpfsGate.Server

open Quota LedgerRun
open Lib Lib.Prog
open Lib (Table Pool)

/-! ## Requests on their way -/

/-- With a confirmed key the request releases the order, or proves receipt of its file. -/
def accepts (cfg : Config) (o : Order) (postingKeys : List String) : Request → Bool
  | .release b => b.orderId = some o.orderId && postingKeys.contains b.signed.pubkey
  | .receipt b => b.orderId = some o.orderId && postingKeys.contains b.signed.pubkey &&
      o.receiptHash.any (fun h => cfg.toLowerCase b.proofHash = cfg.toLowerCase h)
  | _ => false

/-- The account whose request is accepted when the chain answers for its keys. -/
def verdict (cfg : Config) (o : Order) (q : Request) (account : Account) :
    Except String (List String) → Option Account
  | .ok postingKeys => if accepts cfg o postingKeys q then some account else none
  | .error _ => none

def acceptedBy (cfg : Config) (o : Order) (p : Process (machine cfg) Request Body)
    (answer : (c : Call) → c.Reply) : Option Account :=
  match p.call with
  | .getAccountPostingPubkeys account =>
    verdict cfg o p.request account (answer (.getAccountPostingPubkeys account))
  | _ => none

def Request.releases : Request → Bool
  | .release _ | .receipt _ => true
  | _ => false

/-- What is left of a verification once the chain has answered. -/
def confirmKey {cfg : Config} (pubkey : String) :
    Except String (List String) → Handler cfg Unit
  | .error e => .fail ⟨"unprocessable_entity", s!"could not verify account keys: {e}"⟩
  | .ok postingKeys => require (postingKeys.contains pubkey)
      ⟨"unauthorized", "pubkey is not a current posting key for this account"⟩

/-- Where a request is parked: before its decision, or settling after it. -/
def Parks (cfg : Config) (o : Order) (q : Request) (c : Call)
    (k : c.Reply → Handler cfg Body) : Prop :=
  match c, k with
  | .getAccountPostingPubkeys account, k => ∀ reply accepted w, Tally cfg o accepted w →
      (k reply).Turns (M := machine cfg)
        (Concludes cfg o (accepted ++ (verdict cfg o q account reply).toList) Body) w
  | c, k => WindsDown cfg Body c k

section Requests

variable {cfg : Config} {o : Order} {accepted : List Account} {w : World} {q : Request}

theorem parks_of_windsDown {c : Call} {k : c.Reply → Handler cfg Body}
    (h : WindsDown cfg Body c k) : Parks cfg o q c k := by
  cases c with
  | getAccountPostingPubkeys account => cases h.1
  | _ => exact h

theorem verify_turns {account : Account} {ts : Option Int} {pubkey sig message : String} :
    (verifySignedUserRequest account ts pubkey sig message : Handler cfg Unit).Turns
      (M := machine cfg) (fun stop w' => w' = w ∧ ((∃ e, stop = .finished (.error e)) ∨
        (isAccountName account = true ∧
          stop = .suspended (.getAccountPostingPubkeys account) (confirmKey pubkey)))) w := by
  unfold verifySignedUserRequest
  refine turns_require (fun _ => ⟨rfl, Or.inl ⟨_, rfl⟩⟩) (fun hname => ?_)
  cases ts with
  | none => exact ⟨rfl, Or.inl ⟨_, rfl⟩⟩
  | some ts =>
    refine turns_require (fun _ => ⟨rfl, Or.inl ⟨_, rfl⟩⟩) (fun _ => ?_)
    refine turns_require (fun _ => ⟨rfl, Or.inl ⟨_, rfl⟩⟩) (fun _ => ?_)
    refine turns_require (fun _ => ⟨rfl, Or.inl ⟨_, rfl⟩⟩) (fun _ => ?_)
    refine ⟨rfl, Or.inr ⟨hname, ?_⟩⟩
    congr 1
    funext reply
    cases reply <;> rfl

/-- A confirmed request on the order is counted. -/
theorem counts {keys : List String} {account : Account} (h : accepts cfg o keys q = true) :
    (verdict cfg o q account (.ok keys)).toList = [account] := by
  simp [verdict, h]

/-- One that is not accepted is not. -/
theorem not_counts {keys : List String} {account : Account} (h : accepts cfg o keys q = false) :
    (verdict cfg o q account (.ok keys)).toList = [] := by
  simp [verdict, h]

/-- What a signed request does after its verification, when the key is confirmed or not. -/
theorem confirm_turns {α : Type} {pubkey : String} {f : Unit → Handler cfg α} {account : Account}
    {reply : Except String (List String)} (h : Tally cfg o accepted w)
    (hreject : ∀ keys, reply = .ok keys → keys.contains pubkey = false →
      accepts cfg o keys q = false)
    (hconfirm : ∀ keys, reply = .ok keys → keys.contains pubkey = true →
      (f ()).Turns (M := machine cfg)
        (Concludes cfg o (accepted ++ (verdict cfg o q account reply).toList) α) w) :
    (Prog.bind (confirmKey pubkey reply) f).Turns (M := machine cfg)
      (Concludes cfg o (accepted ++ (verdict cfg o q account reply).toList) α) w := by
  cases reply with
  | error e =>
    change Tally cfg o (accepted ++ []) w
    rw [List.append_nil]
    exact h
  | ok keys =>
    refine turns_require (fun hkey => ?_) (fun hkey => hconfirm keys rfl hkey)
    change Tally cfg o _ w
    rw [not_counts (hreject keys rfl hkey), List.append_nil]
    exact h

theorem getOrder_id {db : Db} {orderId : Nat} {order : Order}
    (h : getOrder db orderId = some order) : order.orderId = orderId :=
  (Table.find?_eq_some.mp h).2

theorem Tally.eq_of_found (h : Tally cfg o accepted w) {order : Order}
    (hfind : getOrder w.db order.orderId = some order) (hid : order.orderId = o.orderId) :
    order = o := by
  rw [hid, h.order] at hfind
  exact (Option.some.inj hfind).symm

theorem Tally.ne_of_missing (h : Tally cfg o accepted w) {orderId : Nat}
    (hfind : getOrder w.db orderId = none) : orderId ≠ o.orderId := by
  rintro rfl
  rw [h.order] at hfind
  cases hfind

/-- The decision on a confirmed request is acted upon, and an order that is not the one in
question is none of its business. -/
theorem decide_concludes (hnames : ∀ a, isAccountName a = true → cfg.toLowerCase a = a)
    (hn : Named cfg o) (h : Tally cfg o accepted w) {account : Account}
    (ha : isAccountName account = true) {order : Order}
    (horder : getOrder w.db order.orderId = some order) {α : Type} {f : Decision → Handler cfg α}
    {counted : List Account}
    (hother : order.orderId ≠ o.orderId → counted = [])
    (hf : ∀ d, (order.orderId ≠ o.orderId ∨ (order = o ∧
        Decides o ((getReleaseConsents w.db o.orderId).map cfg.toLowerCase) account d)) →
      (f d).Turns (M := machine cfg) (Concludes cfg o (accepted ++ counted) α) w) :
    (Prog.bind (liftExcept (evaluateRelease cfg order.releasePolicy order.owner account
      (getReleaseConsents w.db order.orderId))) f).Turns (M := machine cfg)
      (Concludes cfg o (accepted ++ counted) α) w := by
  by_cases hid : order.orderId = o.orderId
  · obtain rfl := h.eq_of_found horder hid
    obtain ⟨d, hd, hdecides⟩ := evaluateRelease_decides hnames hn ha
      (getReleaseConsents w.db order.orderId)
    rw [hd]
    exact hf d (Or.inr ⟨rfl, hdecides⟩)
  · refine turns_liftExcept (fun e _ => ?_) (fun d _ => hf d (Or.inl hid))
    rw [hother hid, List.append_nil]
    exact h

/-- Nobody who is not authorised has anything recorded. -/
theorem Tally.refused (h : Tally cfg o accepted w) (hn : Named cfg o) {account : Account}
    {d : Decision}
    (hd : Decides o ((getReleaseConsents w.db o.orderId).map cfg.toLowerCase) account d)
    (hno : d.authorized = false) : Tally cfg o (accepted ++ [account]) w := by
  obtain ⟨hends, hrecords⟩ := hd.authorized hno
  exact h.waits hn hd hends ⟨rfl, rfl, fun b => by simp [hrecords]⟩

theorem release_stays (hnames : ∀ a, isAccountName a = true → cfg.toLowerCase a = a)
    (hn : Named cfg o) (b : ReleaseRequest) (h : Tally cfg o accepted w) :
    (handle cfg (.release b)).Turns (M := machine cfg)
      (Pool.Stays (Tally cfg o accepted) (Parks cfg o (.release b))) w := by
  change (Prog.bind (release b) _).Turns (M := machine cfg) _ w
  unfold release
  dsimp only
  cases horderId : b.orderId with
  | none => exact h
  | some orderId =>
    refine turns_bind (turns_bind (Turns.mono ?_ verify_turns))
    rintro stop w' ⟨rfl, ⟨e, rfl⟩ | ⟨ha, rfl⟩⟩
    · exact h
    refine ⟨h, ?_⟩
    intro reply accepted w h
    refine concludes_bind (confirm_turns h ?_ ?_) (fun _ _ => trivial)
    · intro keys _ hkey
      rw [accepts, hkey, Bool.and_false]
    intro keys hreply hkey
    subst hreply
    have hother : orderId ≠ o.orderId → (verdict cfg o (.release b) (cfg.toLowerCase
        b.signed.hiveAccount) (.ok keys)).toList = [] := by
      intro hne
      exact not_counts (by simp [accepts, horderId, hne])
    refine turns_ask ?_
    cases hfind : getOrder w.db orderId with
    | none =>
      rw [hother (h.ne_of_missing hfind), List.append_nil]
      exact h
    | some order =>
      have hid := getOrder_id hfind
      subst hid
      refine decide_concludes hnames hn h ha hfind hother (fun d hd => ?_)
      rcases hd with hne | ⟨rfl, hd⟩
      · rw [hother hne, List.append_nil]
        refine turns_require (fun _ => h) (fun _ => ?_)
        exact concludes_bind (actOnDecision_other h hne _ d _ _) (fun _ _ => trivial)
      · have haccepts : accepts cfg order keys (.release b) = true := by
          rw [accepts, horderId, hkey]
          simp
        rw [counts haccepts]
        refine turns_require (fun hno => h.refused hn hd hno) (fun _ => ?_)
        exact concludes_bind (actOnDecision_concludes h hn (hnames _ ha) hd _ _)
          (fun _ _ => trivial)

/-- What both kinds of request do with an authorised decision, and a receipt with any. -/
theorem actOnReceipt_other (h : Tally cfg o accepted w) {order : Order}
    (hne : order.orderId ≠ o.orderId) (a : Account) (d : Decision) (sig : String) :
    (actOnReceipt order a sig d : Handler cfg ReleaseOutcome).Turns (M := machine cfg)
      (Concludes cfg o accepted _) w := by
  unfold actOnReceipt
  split
  · exact h
  · exact actOnDecision_other h hne a d sig _

theorem actOnReceipt_concludes (h : Tally cfg o accepted w) (hn : Named cfg o) {a : Account}
    {d : Decision} (hlower : cfg.toLowerCase a = a)
    (hd : Decides o ((getReleaseConsents w.db o.orderId).map cfg.toLowerCase) a d)
    (sig : String) :
    (actOnReceipt o a sig d : Handler cfg ReleaseOutcome).Turns (M := machine cfg)
      (Concludes cfg o (accepted ++ [a]) _) w := by
  unfold actOnReceipt
  cases hauth : d.authorized with
  | false => exact h.refused hn hd hauth
  | true => exact actOnDecision_concludes h hn hlower hd sig _

/-- Recording a receipt touches neither orders nor claims nor consents. -/
theorem Tally.recordReceipt (h : Tally cfg o accepted w) (orderId : Nat) (recipient : Account)
    (proofHash sig : String) :
    Tally cfg o accepted
      ((Stmt.recordReceipt orderId recipient proofHash sig).sem cfg w).2 := by
  refine h.congr ?_ ?_ ?_ <;>
  · dsimp only [Stmt.sem, Stmt.silent, Quota.recordReceipt, getReleaseConsents]
    split <;> rfl

/-- A receipt without the proof counts for nothing: the order is another one, or the proof is not
accepted. -/
theorem unproven_uncounted (h : Tally cfg o accepted w) {b : ReceiptRequest} {keys : List String}
    {account : Account} {order : Order} (hfind : getOrder w.db order.orderId = some order)
    (hother : order.orderId ≠ o.orderId →
      (verdict cfg o (.receipt b) account (.ok keys)).toList = [])
    (hno : order.receiptHash.any
      (fun hash => cfg.toLowerCase b.proofHash = cfg.toLowerCase hash) = false) :
    (verdict cfg o (.receipt b) account (.ok keys)).toList = [] := by
  by_cases hid : order.orderId = o.orderId
  · apply not_counts
    rw [accepts, ← h.eq_of_found hfind hid, hno, Bool.and_false]
  · exact hother hid

theorem receipt_stays (hnames : ∀ a, isAccountName a = true → cfg.toLowerCase a = a)
    (hn : Named cfg o) (b : ReceiptRequest) (h : Tally cfg o accepted w) :
    (handle cfg (.receipt b)).Turns (M := machine cfg)
      (Pool.Stays (Tally cfg o accepted) (Parks cfg o (.receipt b))) w := by
  change (Prog.bind (receipt b) _).Turns (M := machine cfg) _ w
  unfold receipt
  dsimp only
  cases horderId : b.orderId with
  | none => exact h
  | some orderId =>
    refine turns_bind (turns_require (fun _ => h) (fun _ => ?_))
    refine turns_bind (Turns.mono ?_ verify_turns)
    rintro stop w' ⟨rfl, ⟨e, rfl⟩ | ⟨ha, rfl⟩⟩
    · exact h
    refine ⟨h, ?_⟩
    intro reply accepted w h
    refine concludes_bind (confirm_turns h ?_ ?_) (fun _ _ => trivial)
    · intro keys _ hkey
      rw [accepts, hkey, Bool.and_false, Bool.false_and]
    intro keys hreply hkey
    subst hreply
    have hother : orderId ≠ o.orderId → (verdict cfg o (.receipt b) (cfg.toLowerCase
        b.signed.hiveAccount) (.ok keys)).toList = [] := by
      intro hne
      exact not_counts (by simp [accepts, horderId, hne])
    refine turns_ask ?_
    cases hfind : getOrder w.db orderId with
    | none =>
      rw [hother (h.ne_of_missing hfind), List.append_nil]
      exact h
    | some order =>
      have hid := getOrder_id hfind
      subst hid
      dsimp only
      cases hhash : order.receiptHash with
      | none =>
        rw [unproven_uncounted h hfind hother (by rw [hhash]; rfl), List.append_nil]
        exact h
      | some receiptHash =>
        refine turns_require (fun hno => ?_) (fun hproof => ?_)
        · have hany : order.receiptHash.any
              (fun hash => cfg.toLowerCase b.proofHash = cfg.toLowerCase hash) = false := by
            rw [hhash]
            exact hno
          rw [unproven_uncounted h hfind hother hany, List.append_nil]
          exact h
        have h' := h.recordReceipt order.orderId (cfg.toLowerCase b.signed.hiveAccount)
          (cfg.toLowerCase b.proofHash) b.signed.sig
        have hfind' : getOrder ((Stmt.recordReceipt order.orderId
            (cfg.toLowerCase b.signed.hiveAccount) (cfg.toLowerCase b.proofHash)
            b.signed.sig).sem cfg w).2.db order.orderId = some order := by
          rw [← hfind]
          dsimp only [Stmt.sem, Stmt.silent, Quota.recordReceipt, getOrder]
          split <;> rfl
        refine decide_concludes hnames hn h' ha hfind' hother (fun d hd => ?_)
        change Turns (M := machine cfg) _ (Prog.bind (actOnReceipt _ _ _ _) _) _
        rcases hd with hne | ⟨rfl, hd⟩
        · rw [hother hne, List.append_nil]
          exact concludes_bind (actOnReceipt_other h' hne _ d _) (fun _ _ => trivial)
        · have haccepts : accepts cfg order keys (.receipt b) = true := by
            rw [accepts, horderId, hkey, hhash]
            simpa using hproof
          rw [counts haccepts]
          exact concludes_bind (actOnReceipt_concludes h' hn (hnames _ ha) hd _)
            (fun _ _ => trivial)

/-- A parked process is answered. -/
theorem resume_stays (p : Process (machine cfg) Request Body) (answer : (c : Call) → c.Reply)
    (hp : Parks cfg o p.request p.call p.resume) (h : Tally cfg o accepted w) :
    (p.resume (answer p.call)).Turns (M := machine cfg)
      (Pool.Stays (Tally cfg o (accepted ++ (acceptedBy cfg o p answer).toList))
        (Parks cfg o p.request)) w := by
  have hstop : ∀ accepted stop w, Concludes cfg o accepted Body stop w →
      Pool.Stays (M := machine cfg) (Tally cfg o accepted) (Parks cfg o p.request) stop w := by
    intro accepted stop w hc
    cases stop with
    | finished r => exact hc
    | suspended c k => exact ⟨hc.1, parks_of_windsDown hc.2⟩
  obtain ⟨q, c, past, k⟩ := p
  cases c with
  | getAccountPostingPubkeys account => exact Turns.mono (hstop _) (hp (answer _) accepted w h)
  | _ =>
    change Turns (M := machine cfg) (Pool.Stays (Tally cfg o (accepted ++ [])) _) _ w
    rw [List.append_nil]
    exact Turns.mono (hstop _) (concludes_of_tidies (hp.2 _ w) h)

end Requests

/-! ## Runs -/

/-- The order is hosted, and nobody has consented to its release. -/
structure Opened (cfg : Config) (w : World) (o : Order) : Prop where
  order : getOrder w.db o.orderId = some o
  named : Named cfg o
  hosts : Hosts w.db o.orderId
  fresh : getReleaseConsents w.db o.orderId = []

theorem Opened.tally {cfg : Config} {w : World} {o : Order} {n : Nat} (h : Opened cfg w o)
    (hapart : Apart n w.db) : Tally cfg o [] w where
  order := h.order
  one := by
    obtain ⟨active, hactive, hid, hstate⟩ := hosts_iff.mp h.hosts
    constructor
    · intro c hc d hd hco hdo
      exact hapart.sole c hc d hd (hco.trans hdo.symm)
    · intro c hc hco hdorm
      have heq : c = active :=
        Table.eq_of_key hc hactive (hapart.sole c hc active hactive (hco.trans hid.symm))
      rw [heq, hstate] at hdorm
      cases hdorm
  hosts := iff_of_true h.hosts unfired_nil
  consents := by
    intro _ _ a _
    rw [h.fresh]
    exact Iff.rfl

/-- The accounts whose requests on the order are accepted in the run, in the order in which they
are decided. -/
abbrev acceptedIn (cfg : Config) (o : Order) (w : World) (events : List (GateEvent cfg)) :
    List Account :=
  Pool.notes (M := machine cfg) (handle cfg) (acceptedBy cfg o) (Pool.start w) events

/-- Only releases and receipts arrive. -/
abbrev OnlyReleases (cfg : Config) (w : World) (events : List (GateEvent cfg)) : Prop :=
  Pool.Admissible (M := machine cfg) (handle cfg) (fun q _ => q.releases = true)
    (fun _ _ _ => True) (Pool.start w) events

theorem tally_run (cfg : Config) (hnames : ∀ a, isAccountName a = true → cfg.toLowerCase a = a)
    {w : World} {o : Order} {n : Nat} (hapart : Apart n w.db) (hopen : Opened cfg w o)
    {events : List (GateEvent cfg)} (h : OnlyReleases cfg w events) :
    Tally cfg o (acceptedIn cfg o w events)
      ((Pool.start w).run (handle cfg) events : Gate cfg).world := by
  have hstart : Pool.Noted (M := machine cfg) (Tally cfg o) (Parks cfg o) []
      (Pool.start w : Gate cfg) := ⟨hopen.tally hapart, fun p hp => by cases hp⟩
  refine (hstart.run ?_ ?_ ?_ h).inv
  · intro ms accepted w hw
    exact hw.congr rfl rfl rfl
  · intro q accepted w hq hw
    cases q with
    | release b => exact release_stays hnames hopen.named b hw
    | receipt b => exact receipt_stays hnames hopen.named b hw
    | _ => cases hq
  · intro p answer accepted w hp hw
    exact resume_stays p answer hp hw

/-- The world after the releases. -/
abbrev released (cfg : Config) (w : World) (events : List (GateEvent cfg)) : World :=
  ((Pool.start w).run (handle cfg) events : Gate cfg).world

/-- The account whose request the event decides, if it is accepted. -/
abbrev acceptedAt (cfg : Config) (o : Order) (w : World) (events : List (GateEvent cfg))
    (e : GateEvent cfg) : Option Account :=
  Pool.noteAt (M := machine cfg) (acceptedBy cfg o)
    ((Pool.start w).run (handle cfg) events : Gate cfg) e

/-- From every reachable database, an order's claim is ended by exactly that accepted request which
is the first to meet the order's policy, given the accounts accepted before. -/
theorem release_fires (cfg : Config)
    (hnames : ∀ a, isAccountName a = true → cfg.toLowerCase a = a) (t : Int)
    (past : List (GateEvent cfg)) (o : Order) (hopen : Opened cfg (serve cfg t past).world o)
    (events : List (GateEvent cfg)) (e : GateEvent cfg)
    (h : OnlyReleases cfg (serve cfg t past).world (events ++ [e])) :
    (Hosts (released cfg (serve cfg t past).world events).db o.orderId ∧
        ¬ Hosts (released cfg (serve cfg t past).world (events ++ [e])).db o.orderId) ↔
      ∃ a, acceptedAt cfg o (serve cfg t past).world events e = some a ∧
        Unfired o (acceptedIn cfg o (serve cfg t past).world events) ∧
        Fires o (acceptedIn cfg o (serve cfg t past).world events) a := by
  have hapart := serve_apart cfg t past
  generalize (serve cfg t past).world = w at hopen h hapart ⊢
  have hbefore := tally_run cfg hnames hapart hopen (Pool.admissible_append.mp h).1
  have hafter := tally_run cfg hnames hapart hopen h
  have hnotes : acceptedIn cfg o w (events ++ [e]) =
      acceptedIn cfg o w events ++ (acceptedAt cfg o w events e).toList := by
    refine (Pool.notes_append _ _ _).trans ?_
    rw [Pool.notes, Pool.notes, List.append_nil]
  rw [hbefore.hosts, hafter.hosts, hnotes]
  cases acceptedAt cfg o w events e with
  | none =>
    rw [Option.toList_none, List.append_nil]
    constructor
    · rintro ⟨hu, hnot⟩
      exact absurd hu hnot
    · rintro ⟨a, ha, _⟩
      cases ha
  | some a =>
    rw [Option.toList_some, unfired_append]
    constructor
    · rintro ⟨hu, hnot⟩
      refine ⟨a, rfl, hu, ?_⟩
      by_contra hf
      exact hnot ⟨hu, hf⟩
    · rintro ⟨b, hb, hu, hf⟩
      cases hb
      exact ⟨hu, fun hboth => hboth.2 hf⟩

section Sampled

open Sample

/-- Alice uploads a file that Bob and Carol have to release together. -/
def sharedByAlice : List (GateEvent config) :=
  [.spawn (reserveBy "alice"),
    .spawn (.upload
      { reservationId := 1, txId := memoForReservation 1, uploaderPubkey := "posting-key",
        uploadProofSig := "signature", file := "bafy", mime := "text/plain",
        releasePolicy := some (.parsed "all_of" ["bob", "carol"]), receiptHash := "" })] ++
    resumed 6 0

def sharedOrder : Order where
  orderId := 1
  cid := "bafy"
  owner := "alice"
  releasePolicy := { type := .allOf, addresses := ["bob", "carol"] }
  receiptHash := none
  createdTs := 0

def releaseBy (account : Account) : Request :=
  .release { orderId := some 1, signed := signedBy account }

theorem sharedOrder_opened : Opened config (serve config 0 sharedByAlice).world sharedOrder where
  order := by decide +kernel
  named := ⟨by decide, rfl, by decide⟩
  hosts := by decide +kernel
  fresh := by decide +kernel

/-- Bob, who asks twice, and a stranger. -/
def askedByBob : List (GateEvent config) :=
  [.spawn (releaseBy "bob"), .spawn (releaseBy "bob"), .spawn (releaseBy "mallory")] ++
    resumed 3 0 ++ [.spawn (releaseBy "carol")]

theorem release_fires_shared :
    Hosts (released config (serve config 0 sharedByAlice).world askedByBob).db 1 ∧
      ¬ Hosts (released config (serve config 0 sharedByAlice).world
        (askedByBob ++ [.resume 0 answer])).db 1 := by
  have hbefore : acceptedIn config sharedOrder (serve config 0 sharedByAlice).world askedByBob =
      ["bob", "bob", "mallory"] := by decide +kernel
  refine (release_fires config (fun _ _ => rfl) 0 sharedByAlice sharedOrder sharedOrder_opened
    askedByBob (.resume 0 answer) (by decide +kernel)).mpr ⟨"carol", by decide +kernel, ?_⟩
  have hone : Unfired sharedOrder ([] ++ ["bob"]) :=
    unfired_append.mpr ⟨unfired_nil, by decide⟩
  have htwo : Unfired sharedOrder (["bob"] ++ ["bob"]) := unfired_append.mpr ⟨hone, by decide⟩
  have hthree : Unfired sharedOrder (["bob", "bob"] ++ ["mallory"]) :=
    unfired_append.mpr ⟨htwo, by decide⟩
  rw [hbefore]
  exact ⟨hthree, by decide⟩

end Sampled

end IpfsGate.Server
