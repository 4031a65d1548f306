import IpfsGate.Lib.Turnstile
import IpfsGate.Server.Visits

/-!
# Rate limiters

Three limiters stand before the routes, each before reading and writing ones. A request that is
turned away reaches no handler. What the reading requests do behind the limiters can be taken out of
a run; that they were counted cannot.
-/
namespace IpfsGate.Server

open Lib (Entrance Knock Pool Turnstile)
open Lib.Prog (Silent)

/-- The express-rate-limit package: what it has counted, and whether it lets a client's request in
at a time, for a window and a maximum (`none` is no number). -/
structure RateLimit where
  Hits : Type
  fresh : Hits
  hit : (windowMs : Nat) → (max : Option Int) → (ip : String) → (now : Int) → Hits → Bool × Hits

inductive RateLimiter where
  | reserve
  | upload
  | userApi
deriving DecidableEq

namespace RateLimiter

def windowMs : RateLimiter → Nat
  | .reserve => 60 * 1000
  | .upload => 60 * 1000
  | .userApi => 60 * 1000

def fault : RateLimiter → Fault
  | .reserve => ⟨"rate_limited", "too many /reserve requests"⟩
  | .upload => ⟨"rate_limited", "too many /upload requests"⟩
  | .userApi => ⟨"rate_limited", "too many requests"⟩

end RateLimiter

/-- The limiter before the route of a request. -/
def SiteRequest.limiter : SiteRequest → Option RateLimiter
  | .gate (.reserve _) => some .reserve
  | .gate (.upload _) => some .upload
  | .gate (.guardianPledge _) => some .upload
  | .gate (.backstopPledge _) => some .upload
  | .gate (.ownCopy _) => some .upload
  | .gate (.extend _) => some .upload
  | .gate (.cancel _) => some .userApi
  | .gate (.uploadsDelete _) => some .userApi
  | .gate (.release _) => some .userApi
  | .gate (.receipt _) => some .userApi
  | .check _ => some .upload
  | .uploadsByUser _ => some .userApi
  | .claimsMine _ => some .userApi
  | .guardianQuote _ => some .userApi
  | .backstopQuote _ => some .userApi
  | .ownCopyQuote _ => some .userApi
  | .extendQuote .. => some .userApi
  | _ => none

/-- The limiters with their maxima, before the site. A client is its address. -/
def rateLimiters (cfg : Config) (R : RateLimit) (max : RateLimiter → Option Int) :
    Turnstile (siteMachine cfg) SiteRequest String where
  Count := RateLimiter → R.Hits
  start := fun _ => R.fresh
  count := fun ip q w counted =>
    match q.limiter with
    | none => (none, counted)
    | some l =>
      let (letIn, hits) := R.hit l.windowMs (max l) ip w.world.now (counted l)
      (if letIn then none else some l.fault, Function.update counted l hits)

abbrev SiteKnock (cfg : Config) := Knock (siteMachine cfg) SiteRequest String

section

variable (cfg : Config) (R : RateLimit) (max : RateLimiter → Option Int) (w : Site)
  (knocks : List (SiteKnock cfg))

/-- The site behind its limiters after the events, with nothing counted before. -/
def hostLimited : Entrance (rateLimiters cfg R max) SiteBody :=
  (Entrance.start (rateLimiters cfg R max) w).run (visit cfg) knocks

/-- What has reached the site behind its limiters. -/
def reached : List (SiteEvent cfg) :=
  (Entrance.start (B := SiteBody) (rateLimiters cfg R max) w).poolEvents (visit cfg) knocks

end

section

variable {cfg : Config} {R : RateLimit} {max : RateLimiter → Option Int}

/-- Behind its limiters the site runs as it does alone. -/
theorem hostLimited_pool (w : Site) (knocks : List (SiteKnock cfg)) :
    (hostLimited cfg R max w knocks).pool = host cfg w (reached cfg R max w knocks) :=
  Entrance.pool_run _ _

theorem count_unlimited (ip : String) (q : SiteRequest) (w : Site) (counted : RateLimiter → R.Hits)
    (h : q.limiter.isSome = false) :
    (rateLimiters cfg R max).count ip q w counted = (none, counted) := by
  have hnone : q.limiter = none := by
    simpa using h
  show (match q.limiter with
    | none => (none, counted)
    | some l => _) = _
  rw [hnone]

/-- Behind its limiters the site runs as it does alone. What the reading requests do there can be
taken out of a run, however they were interleaved with the others: the processes that start are those
of the others, which end in the same world with the same outcomes, and the same requests are turned
away. Reading requests on routes without a limiter need not even arrive. -/
theorem reads_invisible (cfg : Config) (R : RateLimit) (max : RateLimiter → Option Int) (w : Site)
    (knocks : List (SiteKnock cfg)) :
    (hostLimited cfg R max w knocks).pool = host cfg w (reached cfg R max w knocks) ∧
    ∃ knocks' : List (SiteKnock cfg),
      knocks'.filterMap Entrance.arriving =
        (knocks.filterMap Entrance.arriving).filter
          (fun k => k.2.writes || k.2.limiter.isSome) ∧
      arrived (reached cfg R max w knocks') =
        (arrived (reached cfg R max w knocks)).filter SiteRequest.writes ∧
      (hostLimited cfg R max w knocks').pool.world = (hostLimited cfg R max w knocks).pool.world ∧
      (hostLimited cfg R max w knocks').pool.finished =
        (hostLimited cfg R max w knocks).pool.finished.filter (fun f => f.request.writes) ∧
      (hostLimited cfg R max w knocks').turnedAway = (hostLimited cfg R max w knocks).turnedAway := by
  have hsilent : ∀ q, q.writes = false → (visit cfg q).Silent := fun _ => visit_silent cfg
  have hstart : (Pool.start w : SitePool cfg).SilentBut SiteRequest.writes :=
    fun p hp => absurd hp List.not_mem_nil
  have hfree := @count_unlimited cfg R max
  let S : Entrance (rateLimiters cfg R max) SiteBody := Entrance.start _ w
  have hrun := Entrance.run_keep (S := S) hsilent hfree hstart knocks
  have hspawned := Entrance.spawned_keepKnocks (S := S) hsilent hfree hstart knocks
  refine ⟨hostLimited_pool w knocks,
    S.keepKnocks (visit cfg) SiteRequest.writes (fun q => q.limiter.isSome) knocks,
    Entrance.arriving_keepKnocks S knocks, hspawned, ?_, ?_, ?_⟩
  · exact (congrArg (fun E => E.pool.world) hrun).symm
  · exact (congrArg (fun E => E.pool.finished) hrun).symm
  · exact (congrArg Entrance.turnedAway hrun).symm

open Sample in
/-- A look at whether a file is hosted uses up the limit that an upload needs. -/
example (w : Site) :
    (hostLimited config ⟨Nat, 0, fun _ _ _ _ n => (n == 0, n + 1)⟩ (fun _ => some 1) w
      [.arrive "198.51.100.7" (.check "bafy"),
       .arrive "198.51.100.7" (.gate (uploadOf 1 "bafy"))]).turnedAway =
      [(.gate (uploadOf 1 "bafy"), ⟨"rate_limited", "too many /upload requests"⟩)] := rfl

end

end IpfsGate.Server
