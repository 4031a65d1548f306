import IpfsGate.Lib.Silent
import IpfsGate.Server.Site

/-!
# Visits that only read

Most endpoints of the site only read. They can be left out of a run: the others do the same on the
same worlds. What is left is a run of the gate, but for the operator's note of a manual refund.
-/
namespace IpfsGate.Server

open Lib (Event Pool Prog)
open Lib.Prog (Silent)

/-- Whether an endpoint may write. -/
def SiteRequest.writes : SiteRequest → Bool
  | .gate _ => true
  | .logRefund _ => true
  | _ => false

section Silent

variable {cfg : Config} {α β : Type}

theorem silent_respond (f : Db → Int → Except Fault α) : (respond f : Handler cfg α).Silent :=
  fun _ => Prog.silent_liftExcept

theorem silent_survey (f : Site → Except Fault α) : (survey f : SiteHandler cfg α).Silent :=
  fun _ => Prog.silent_liftExcept

theorem silent_verifySignedUserRequest (account : Account) (ts : Option Int)
    (pubkey sig message : String) :
    (verifySignedUserRequest account ts pubkey sig message : Handler cfg Unit).Silent := by
  refine Silent.bind Prog.silent_require (fun _ => ?_)
  cases ts with
  | none => trivial
  | some tsNum =>
    refine Silent.bind Prog.silent_require (fun _ => ?_)
    refine Silent.bind (Prog.silent_query World.now) (fun _ => ?_)
    refine Silent.bind Prog.silent_require (fun _ => ?_)
    refine Silent.bind Prog.silent_require (fun _ => ?_)
    intro r
    cases r with
    | error e => trivial
    | ok postingKeys => exact Prog.silent_require

theorem silent_requireAdmin (auth : AdminAuth) : (requireAdmin auth : Handler cfg Unit).Silent :=
  Prog.silent_require

theorem silent_verifyAdminAuth (auth : AdminAuth) (action target : String) :
    (verifyAdminAuth auth action target : Handler cfg String).Silent := by
  unfold verifyAdminAuth
  split
  · exact fun _ => trivial
  · refine Silent.bind Prog.silent_require (fun _ => ?_)
    refine Silent.bind Prog.silent_require (fun _ => ?_)
    exact Silent.bind (silent_verifySignedUserRequest _ _ _ _ _) (fun _ => trivial)

theorem silent_adminView (auth : AdminAuth) (f : Db → Int → Except Fault α) :
    (adminView auth f : Handler cfg α).Silent :=
  Silent.bind (silent_requireAdmin auth) (fun _ => silent_respond f)

theorem silent_inGate (tell : α → β) {p : Handler cfg α} (hp : p.Silent) :
    (inGate tell p).Silent := hp.lift (siteExtension cfg) tell

theorem silent_ipfs (method : Method) (cid : Cid) (range : Option String) :
    (ipfs method cid range : SiteHandler cfg Response).Silent := by
  intro w
  dsimp only
  split
  · trivial
  · exact fun _ => trivial

theorem silent_checkFile (file : Cid) : (checkFile file : SiteHandler cfg CheckReply).Silent := by
  refine Silent.bind Prog.silent_require (fun _ => ?_)
  intro r
  cases r with
  | error e => trivial
  | ok _ => exact silent_survey _

/-- The endpoints that may not write do not. -/
theorem visit_silent (cfg : Config) {q : SiteRequest} (h : q.writes = false) :
    (visit cfg q).Silent := by
  cases q with
  | gate q => cases h
  | logRefund b => cases h
  | info => trivial
  | status cid => exact silent_inGate _ (silent_respond _)
  | check file => exact Silent.map _ (silent_checkFile file)
  | ipfs method cid range => exact Silent.map _ (silent_ipfs method cid range)
  | uploadsByUser s =>
    exact silent_inGate _ (Silent.bind (silent_verifySignedUserRequest _ _ _ _ _)
      (fun _ => silent_respond _))
  | claimsMine s =>
    exact silent_inGate _ (Silent.bind (silent_verifySignedUserRequest _ _ _ _ _)
      (fun _ => silent_respond _))
  | guardianQuote b => exact silent_inGate _ (silent_respond _)
  | guardianQueue cid => exact silent_inGate _ (silent_respond _)
  | backstopQuote b => exact silent_inGate _ (silent_respond _)
  | backstopQueue cid => exact silent_inGate _ (silent_respond _)
  | ownCopyQuote b => exact silent_inGate _ (silent_respond _)
  | extendQuote claimId hours => exact silent_inGate _ (silent_respond _)
  | adminWhitelist auth =>
    exact silent_inGate _ (Silent.bind (silent_verifyAdminAuth _ _ _) (fun _ => silent_respond _))
  | adminUploads auth account p => exact silent_inGate _ (silent_adminView _ _)
  | adminBans auth => exact silent_inGate _ (silent_adminView _ _)
  | adminTakedowns auth => exact silent_inGate _ (silent_adminView _ _)
  | moderationLog auth p => exact silent_inGate _ (silent_adminView _ _)
  | stats auth =>
    refine Silent.map _ (Silent.bind (silent_inGate _ (silent_requireAdmin auth)) (fun _ => ?_))
    exact fun w => Silent.map _ (fun _ => trivial)
  | orphanPayments auth =>
    exact Silent.map _ (Silent.bind (silent_inGate _ (silent_requireAdmin auth))
      (fun _ => silent_survey _))

end Silent

/-- The requests that arrive in a run. -/
abbrev arrived {cfg : Config} (events : List (SiteEvent cfg)) : List SiteRequest :=
  events.filterMap Pool.arriving

/-- A run of the site in which no manual refund is noted is, for the database, for Kubo and for the
requests that write, a run of the gate: of the same requests in the same order, with the same
outcomes. -/
theorem site_runs_the_gate (cfg : Config) (w : Site) (events : List (SiteEvent cfg))
    (h : ∀ b, .logRefund b ∉ arrived events) :
    ∃ gateEvents : List (GateEvent cfg),
      (gateEvents.filterMap Pool.arriving).map SiteRequest.gate =
        (arrived events).filter SiteRequest.writes ∧
      ((Pool.start w.world).run (handle cfg) gateEvents).world = (host cfg w events).world.world ∧
      List.Forall₂ (Pool.FinishedLifts (siteExtension cfg) SiteRequest.gate SiteBody.gate)
        ((Pool.start w.world).run (handle cfg) gateEvents).finished
        ((host cfg w events).finished.filter (fun f => f.request.writes)) := by
  have hstart : (Pool.start w : SitePool cfg).SilentBut SiteRequest.writes :=
    fun p hp => absurd hp List.not_mem_nil
  have hsilent : ∀ q, q.writes = false → (visit cfg q).Silent := fun _ => visit_silent cfg
  have hrun := hstart.run hsilent events
  have harrived : (Pool.keepEvents (visit cfg) SiteRequest.writes (Pool.start w)
      events).filterMap Pool.arriving = (arrived events).filter SiteRequest.writes :=
    Pool.arriving_keepEvents _ _
  have hgate : ∀ q' ∈ (Pool.keepEvents (visit cfg) SiteRequest.writes (Pool.start w)
      events).filterMap Pool.arriving, ∃ q, SiteRequest.gate q = q' := by
    intro q' hq'
    rw [harrived] at hq'
    obtain ⟨hmem, hwrites⟩ := List.mem_filter.mp hq'
    cases q' with
    | gate q => exact ⟨q, rfl⟩
    | logRefund b => exact absurd hmem (h b)
    | _ => cases hwrites
  obtain ⟨gateEvents, hlifts, hasked⟩ := Pool.exists_lifted (siteExtension cfg) SiteRequest.gate
    (fun d => ⟨d, rfl⟩) _ hgate
  have hhost := host_gate cfg w hlifts
  refine ⟨gateEvents, hasked.trans harrived, ?_, ?_⟩
  · exact hhost.world.symm.trans (congrArg (fun S => S.world.world) hrun.symm)
  · have hfinished := hhost.finished
    rw [show (host cfg w (Pool.keepEvents (visit cfg) SiteRequest.writes (Pool.start w)
      events)).finished = _ from (congrArg Pool.finished hrun).symm] at hfinished
    exact hfinished

section Sampled

open Sample

/-- Somebody reads while Alice reserves. -/
def readAndReserved : List (SiteEvent config) :=
  [.spawn .info, .spawn (.gate (reserveBy "alice")), .spawn (.status "bafy")]

theorem site_runs_the_gate_reserved :
    (∀ b, .logRefund b ∉ arrived readAndReserved) ∧
    ∀ w : Site, ∃ gateEvents : List (GateEvent config),
      (gateEvents.filterMap Pool.arriving).map SiteRequest.gate =
        (arrived readAndReserved).filter SiteRequest.writes ∧
      ((Pool.start w.world).run (handle config) gateEvents).world =
        (host config w readAndReserved).world.world ∧
      List.Forall₂ (Pool.FinishedLifts (siteExtension config) SiteRequest.gate SiteBody.gate)
        ((Pool.start w.world).run (handle config) gateEvents).finished
        ((host config w readAndReserved).finished.filter (fun f => f.request.writes)) := by
  have hnone : ∀ b, .logRefund b ∉ arrived readAndReserved := by
    intro b hb
    simp [arrived, readAndReserved, Pool.arriving] at hb
  exact ⟨hnone, fun w => site_runs_the_gate config w readAndReserved hnone⟩

end Sampled

end IpfsGate.Server
