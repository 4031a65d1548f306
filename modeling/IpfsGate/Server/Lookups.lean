import IpfsGate.Server.Warrants

/-!
# Asking the chain

The gate asks public nodes, which may fail in every way. A lookup goes from node to node until
one of them answers, and is made again while the transaction is not in a block yet. The
sidechain has one node, which is asked until it has processed the transfer.
-/
namespace IpfsGate.Server

open Quota
open Lib (Pool)

/-- What a request to a node comes to. Only the last kind is an answer. -/
inductive NodeReply (α : Type) where
  | threw (message : String)
  | http (status : Nat)
  | notJson (message : String)
  | rpcError (message : String)
  | noResult
  | result (a : α)

def hiveNodeFallback : List String :=
  ["https://api.hive.blog", "https://api.deathwing.me", "https://hive-api.arcange.eu",
   "https://api.openhive.network", "https://techcoderx.com"]

/-- The operator's own node comes first. -/
def getHiveNodes (hiveApi : String) : List String :=
  if hiveApi ≠ "" then hiveApi :: hiveNodeFallback else hiveNodeFallback

namespace NodeReply

variable {α : Type}

def answer : NodeReply α → Option α
  | result a => some a
  | _ => none

/-- The error that is kept of a node that did not answer. -/
def failure (node : String) : NodeReply α → String
  | threw message => message
  | http status => s!"HTTP {status} from {node}"
  | notJson message => message
  | rpcError message => s!"JSON-RPC: {message}"
  | noResult => "No result in response"
  | result _ => ""

end NodeReply

/-- What the nodes reply to one request, in the order in which they are asked. A node that is
listed twice may reply differently the second time. -/
structure Round (nodes : List String) (α : Type) where
  replies : List (NodeReply α)
  length_replies : replies.length = nodes.length

def Round.asked {nodes : List String} {α : Type} (r : Round nodes α) :
    List (String × NodeReply α) :=
  nodes.zip r.replies

/-- Ask the nodes one after the other; `lastErr` is what the last one failed with. -/
def hivePost {α : Type} : List (String × NodeReply α) → Option String → Except String α
  | [], lastErr => .error (lastErr.getD "All Hive nodes failed")
  | (_, .result a) :: _, _ => .ok a
  | (node, reply) :: later, _ => hivePost later (some (reply.failure node))

/-- `/missing|not found|unknown|null/i`. -/
def saysNotYet (message : String) : Bool :=
  let text := message.toList.map Char.toLower
  ["missing", "not found", "unknown", "null"].any (fun word =>
    text.tails.any (fun tail => word.toList.isPrefixOf tail))

/-- What the nodes reply: about a transaction at each attempt of a lookup, and about an account. -/
structure Nodes (nodes : List String) where
  transaction : String → List (Round nodes (Option (List Operation)))
  accounts : Account → Round nodes (List (List (Option String)))

section Lookups

variable {nodes : List String} (net : Nodes nodes)

/-- The attempts that are left. A transaction counts as found when it has operations; an
unexpected error is passed on from the last attempt only. -/
def transactionLoop (retries : Nat) (txId : String) :
    List (Round nodes (Option (List Operation))) → Except String (List Operation)
  | [] => .error s!"Hive transaction {txId} not found after {retries} attempts"
  | attempt :: later =>
    match hivePost attempt.asked none with
    | .ok (some (op :: operations)) => .ok (op :: operations)
    | .ok _ => transactionLoop retries txId later
    | .error e =>
      if !saysNotYet e && later.isEmpty then .error e else transactionLoop retries txId later

def getTransactionWithRetry (txId : String) : Except String (List Operation) :=
  transactionLoop (net.transaction txId).length txId (net.transaction txId)

/-- The strings among the first account's posting keys. -/
def postingKeysOf : List (List (Option String)) → List String
  | [] => []
  | keyAuths :: _ => keyAuths.filterMap id

def getAccountPostingPubkeys (cfg : Config) (account : Account) : Except String (List String) :=
  let acct := cfg.toLowerCase account
  if !isAccountName acct then .error "invalid Hive account name"
  else
    match hivePost (net.accounts acct).asked none with
    | .error e => .error e
    | .ok result => .ok (postingKeysOf result)

end Lookups

/-- What a request to the sidechain's node comes to. `processed` lists the errors in the logs of
the transaction. -/
inductive EngineReply where
  | threw (message : String)
  | http (status : Nat)
  | rpcError (error : String)
  | notProcessed
  | processed (errors : List String)

namespace EngineReply

def failure : EngineReply → Option String
  | threw message => some message
  | http status => some s!"Hive-Engine blockchain HTTP {status}"
  | rpcError error => some s!"Hive-Engine blockchain: {error}"
  | _ => none

def verdict : EngineReply → Option SidechainResult
  | processed [] => some .confirmed
  | processed (e :: errors) => some (.rejected (e :: errors))
  | _ => none

end EngineReply

/-- The replies to the attempts that are left. An error is remembered past replies that say
nothing. -/
def sidechainLoop : List EngineReply → Option String → Except String SidechainResult
  | [], some e => .error e
  | [], none => .ok .pending
  | .processed [] :: _, _ => .ok .confirmed
  | .processed (e :: errors) :: _, _ => .ok (.rejected (e :: errors))
  | reply :: later, lastErr => sidechainLoop later (reply.failure.or lastErr)

def verifyHiveEngineSidechain (replies : List EngineReply) : Except String SidechainResult :=
  sidechainLoop replies none

/-! ## What a lookup finds -/

section Found

variable {α : Type} {asked : List (String × NodeReply α)} {lastErr : Option String}

/-- The first node that answers is believed. -/
theorem hivePost_ok_iff {a : α} : hivePost asked lastErr = .ok a ↔
    asked.findSome? (fun x => x.2.answer) = some a := by
  induction asked generalizing lastErr with
  | nil => simp [hivePost]
  | cons x rest ih =>
    obtain ⟨node, reply⟩ := x
    rw [List.findSome?_cons]
    cases reply with
    | result b => simp [hivePost, NodeReply.answer]
    | _ => exact ih

theorem answer_eq_some {reply : NodeReply α} {a : α} (h : reply.answer = some a) :
    reply = .result a := by
  cases reply with
  | result b =>
    cases h
    rfl
  | _ => cases h

theorem mem_replies {nodes : List String} {r : Round nodes α} {x : String × NodeReply α}
    (h : x ∈ r.asked) : x.2 ∈ r.replies :=
  (List.of_mem_zip h).2

/-- Some node has answered that. -/
theorem hivePost_told {a : α} (h : hivePost asked lastErr = .ok a) :
    ∃ x ∈ asked, x.2 = .result a := by
  obtain ⟨x, hx, hanswer⟩ := List.exists_of_findSome?_eq_some (hivePost_ok_iff.mp h)
  exact ⟨x, hx, answer_eq_some hanswer⟩

end Found

section Transactions

variable {nodes : List String}

/-- What an attempt comes by: the operations that the first node to answer gives. -/
def found (attempt : Round nodes (Option (List Operation))) : Option (List Operation) :=
  match attempt.asked.findSome? (fun x => x.2.answer) with
  | some (some (op :: operations)) => some (op :: operations)
  | _ => none

/-- The error that an attempt ends the lookup with, if it is the last one. -/
def unexpected (attempt : Round nodes (Option (List Operation))) : Option String :=
  match hivePost attempt.asked none with
  | .error e => if saysNotYet e then none else some e
  | .ok _ => none

variable {retries : Nat} {txId : String} {attempt : Round nodes (Option (List Operation))}
  {attempts : List (Round nodes (Option (List Operation)))}

theorem found_eq_some {operations : List Operation} : found attempt = some operations ↔
    operations ≠ [] ∧
      attempt.asked.findSome? (fun x => x.2.answer) = some (some operations) := by
  unfold found
  constructor
  · intro h
    split at h
    · rename_i op rest hanswer
      cases h
      exact ⟨List.cons_ne_nil op rest, hanswer⟩
    · cases h
  · rintro ⟨hne, hanswer⟩
    rw [hanswer]
    cases operations with
    | nil => exact absurd rfl hne
    | cons op rest => rfl

theorem transactionLoop_cons :
    transactionLoop retries txId (attempt :: attempts) =
      match found attempt, attempts.isEmpty, unexpected attempt with
      | some operations, _, _ => .ok operations
      | none, true, some e => .error e
      | none, _, _ => transactionLoop retries txId attempts := by
  rw [transactionLoop, found, unexpected]
  cases hpost : hivePost attempt.asked none with
  | error e =>
    have hnone : attempt.asked.findSome? (fun x => x.2.answer) = none := by
      by_contra hsome
      obtain ⟨a, ha⟩ := Option.ne_none_iff_exists'.mp hsome
      rw [hivePost_ok_iff.mpr ha] at hpost
      cases hpost
    rw [hnone]
    by_cases hnot : saysNotYet e = true
    · simp [hnot]
    · cases attempts <;> simp [hnot]
  | ok answered =>
    rw [hivePost_ok_iff.mp hpost]
    rcases answered with _ | _ | ⟨op, operations⟩ <;> simp

/-- The loop in one: the first attempt that finds something, else the last one's error. -/
theorem transactionLoop_eq (attempts : List (Round nodes (Option (List Operation)))) :
    transactionLoop retries txId attempts =
      match attempts.findSome? found with
      | some operations => .ok operations
      | none => .error ((attempts.getLast?.bind unexpected).getD
          s!"Hive transaction {txId} not found after {retries} attempts") := by
  induction attempts with
  | nil => rfl
  | cons attempt later ih =>
    rw [transactionLoop_cons, List.findSome?_cons]
    cases hfound : found attempt with
    | some operations => rfl
    | none =>
      cases later with
      | nil => cases hunexpected : unexpected attempt <;> simp [transactionLoop, hunexpected]
      | cons next rest => simpa [List.getLast?_cons_cons] using ih

/-- A lookup gives what the first node that answers says at the first attempt at which that node
knows the transaction. If there is none it fails, with the error of the last attempt if that one
is unexpected, whatever the attempts before it failed with. -/
theorem transaction_lookup (nodes : List String) (net : Nodes nodes) (txId : String) :
    (∀ operations, getTransactionWithRetry net txId = .ok operations ↔
      ∃ before attempt after, net.transaction txId = before ++ attempt :: after ∧
        found attempt = some operations ∧ ∀ a ∈ before, found a = none) ∧
    ∀ e, getTransactionWithRetry net txId = .error e ↔
      (∀ a ∈ net.transaction txId, found a = none) ∧
        e = (((net.transaction txId).getLast?.bind unexpected).getD
          s!"Hive transaction {txId} not found after {(net.transaction txId).length} attempts") := by
  unfold getTransactionWithRetry
  rw [transactionLoop_eq]
  constructor
  · intro operations
    rw [← List.findSome?_eq_some_iff]
    cases (net.transaction txId).findSome? found <;> simp
  · intro e
    rw [← List.findSome?_eq_none_iff]
    cases (net.transaction txId).findSome? found <;> simp [eq_comm]

end Transactions

section Sidechain

/-- The last error among the replies, behind which nothing is processed. -/
def LastFailure (replies : List EngineReply) (e : String) : Prop :=
  ∃ before reply after, replies = before ++ reply :: after ∧ reply.failure = some e ∧
    ∀ r ∈ after, r = .notProcessed

variable {replies : List EngineReply} {last : Option String}

theorem lastFailure_cons {reply : EngineReply} {e : String} :
    LastFailure (reply :: replies) e ↔
      (reply.failure = some e ∧ ∀ r ∈ replies, r = .notProcessed) ∨ LastFailure replies e := by
  constructor
  · rintro ⟨before, r, after, heq, hfail, hafter⟩
    cases before with
    | nil =>
      obtain ⟨rfl, rfl⟩ := List.cons.inj heq
      exact Or.inl ⟨hfail, hafter⟩
    | cons b before =>
      obtain ⟨rfl, rfl⟩ := List.cons.inj heq
      exact Or.inr ⟨before, r, after, rfl, hfail, hafter⟩
  · rintro (⟨hfail, hafter⟩ | ⟨before, r, after, rfl, hfail, hafter⟩)
    · exact ⟨[], reply, replies, rfl, hfail, hafter⟩
    · exact ⟨reply :: before, r, after, rfl, hfail, hafter⟩

/-- A reply without a verdict is passed over, and its error remembered. -/
theorem sidechainLoop_cons {reply : EngineReply} (h : reply.verdict = none) :
    sidechainLoop (reply :: replies) last = sidechainLoop replies (reply.failure.or last) := by
  cases reply with
  | processed errors => cases errors <;> cases h
  | _ => rfl

theorem sidechainLoop_verdict {reply : EngineReply} {v : SidechainResult}
    (h : reply.verdict = some v) : sidechainLoop (reply :: replies) last = .ok v := by
  cases reply with
  | processed errors => cases errors <;> (cases h; rfl)
  | _ => cases h

theorem failure_eq_none {reply : EngineReply} (h : reply.verdict = none) :
    reply.failure = none ↔ reply = .notProcessed := by
  cases reply with
  | processed errors => cases errors <;> cases h
  | _ => simp [EngineReply.failure]

theorem sidechainLoop_ok_iff {v : SidechainResult} : sidechainLoop replies last = .ok v ↔
    replies.findSome? EngineReply.verdict = some v ∨
      (v = .pending ∧ last = none ∧ ∀ r ∈ replies, r = .notProcessed) := by
  induction replies generalizing last with
  | nil => cases last <;> simp [sidechainLoop, eq_comm]
  | cons reply later ih =>
    rw [List.findSome?_cons]
    cases hverdict : reply.verdict with
    | some w =>
      have hreply : reply ≠ .notProcessed := by
        rintro rfl
        cases hverdict
      simp [sidechainLoop_verdict hverdict, hreply]
    | none =>
      rw [sidechainLoop_cons hverdict, ih, Option.or_eq_none_iff, failure_eq_none hverdict,
        List.forall_mem_cons]
      simp only [and_assoc, and_left_comm]

theorem sidechainLoop_error_iff {e : String} : sidechainLoop replies last = .error e ↔
    (∀ r ∈ replies, r.verdict = none) ∧
      (LastFailure replies e ∨ (last = some e ∧ ∀ r ∈ replies, r = .notProcessed)) := by
  induction replies generalizing last with
  | nil => cases last <;> simp [sidechainLoop, LastFailure]
  | cons reply later ih =>
    rw [List.forall_mem_cons, List.forall_mem_cons, lastFailure_cons]
    cases hverdict : reply.verdict with
    | some w => simp [sidechainLoop_verdict hverdict]
    | none =>
      rw [sidechainLoop_cons hverdict, ih]
      cases hfailure : reply.failure with
      | none =>
        have hreply := (failure_eq_none hverdict).mp hfailure
        simp [hreply]
      | some f =>
        have hreply : reply ≠ .notProcessed := fun heq =>
          Option.some_ne_none f (hfailure.symm.trans ((failure_eq_none hverdict).mpr heq))
        simp only [Option.some_or, hreply, false_and, and_false, or_false, true_and]
        exact and_congr_right (fun _ => or_comm)

/-- The sidechain's verdict is that of the first reply that has one. Without a verdict the gate
takes the transfer for pending exactly if every reply said so; one failure among them, however
early, is what the check fails with. -/
theorem sidechain_verdict (replies : List EngineReply) :
    (∀ v, verifyHiveEngineSidechain replies = .ok v ↔
      replies.findSome? EngineReply.verdict = some v ∨
        (v = .pending ∧ ∀ r ∈ replies, r = .notProcessed)) ∧
    ∀ e, verifyHiveEngineSidechain replies = .error e ↔
      (∀ r ∈ replies, r.verdict = none) ∧ LastFailure replies e := by
  constructor
  · intro v
    rw [verifyHiveEngineSidechain, sidechainLoop_ok_iff]
    simp only [true_and]
  · intro e
    rw [verifyHiveEngineSidechain, sidechainLoop_error_iff]
    simp only [reduceCtorEq, false_and, or_false]

end Sidechain

/-! ## Lookups of a run -/

/-- Nodes may fail; when they answer, they tell what the chain holds. -/
structure Truthful (cfg : Config) (chain : Chain) {nodes : List String} (net : Nodes nodes) :
    Prop where
  transaction : ∀ txId, ∀ attempt ∈ net.transaction txId, ∀ operations, operations ≠ [] →
    .result (some operations) ∈ attempt.replies → chain.operations txId = some operations
  accounts : ∀ account rows, .result rows ∈ (net.accounts (cfg.toLowerCase account)).replies →
    chain.postingKeys account (postingKeysOf rows)

/-- The reply is that of a lookup, from nodes that are truthful while it is made. -/
def LookedUp (cfg : Config) (chain : Chain) (nodes : List String) : GateEvent cfg → Prop
  | .resume _ answer => ∃ net : Nodes nodes, Truthful cfg chain net ∧
      (∀ txId, answer (.getTransaction txId) = getTransactionWithRetry net txId) ∧
      ∀ account, answer (.getAccountPostingPubkeys account) =
        getAccountPostingPubkeys net cfg account
  | _ => True

/-- Lookups through truthful nodes are honest. -/
theorem answered_of_lookedUp {cfg : Config} {chain : Chain} {nodes : List String}
    {events : List (GateEvent cfg)} (h : ∀ e ∈ events, LookedUp cfg chain nodes e) :
    Answered cfg chain.answers events := by
  intro e he
  have hlooked := h e he
  cases e with
  | spawn q => trivial
  | drift ms => trivial
  | resume i answer =>
    obtain ⟨net, htrue, htx, haccounts⟩ := hlooked
    intro c
    cases c with
    | getTransaction txId =>
      show chain.answers (.getTransaction txId) (answer (.getTransaction txId))
      rw [htx txId, getTransactionWithRetry, transactionLoop_eq]
      cases hfound : (net.transaction txId).findSome? found with
      | none => trivial
      | some operations =>
        obtain ⟨attempt, hattempt, hops⟩ := List.exists_of_findSome?_eq_some hfound
        obtain ⟨hne, hanswer⟩ := found_eq_some.mp hops
        obtain ⟨x, hx, htold⟩ := List.exists_of_findSome?_eq_some hanswer
        exact htrue.transaction txId attempt hattempt operations hne
          (answer_eq_some htold ▸ mem_replies hx)
    | getAccountPostingPubkeys account =>
      show chain.answers (.getAccountPostingPubkeys account)
        (answer (.getAccountPostingPubkeys account))
      rw [haccounts account, getAccountPostingPubkeys]
      split
      · trivial
      · cases hpost : hivePost (net.accounts (cfg.toLowerCase account)).asked none with
        | error e => trivial
        | ok rows =>
          obtain ⟨x, hx, htold⟩ := hivePost_told hpost
          exact htrue.accounts account rows (htold ▸ mem_replies hx)
    | _ => trivial

/-- In every run that asks nodes which may fail in any way but do not lie, whatever ends hosting
early, records a consent or a receipt, or moderates was run for a request that showed a warrant
on arrival, and does what that request asked for in the name of whoever gave the warrant. -/
theorem warranted_from_nodes (cfg : Config) (chain : Chain) (nodes : List String) (t : Int)
    (events : List (GateEvent cfg)) (h : ∀ e ∈ events, LookedUp cfg chain nodes e) :
    ∀ q past, (serve cfg t events).Ran q past → ∀ a ∈ past, a.1.warranted = true →
      ∃ w₀ who, (q, w₀) ∈ arrivedIn cfg t events ∧ Evolves w₀ a.2 ∧
        Vouched cfg chain q w₀.now who ∧ q.Asks cfg who w₀ a.2 a.1 :=
  fun _ _ hran _ ha hwarranted =>
    writes_warranted cfg chain t events (answered_of_lookedUp h) hran ha hwarranted

section Sampled

open Sample

/-- The first node times out, and the others know. -/
def flaky {α : Type} (a : α) : Round (getHiveNodes "") α where
  replies := .threw "timeout" :: List.replicate 4 (.result a)
  length_replies := rfl

theorem mem_flaky {α : Type} {a b : α} (h : .result b ∈ (flaky a).replies) : b = a := by
  rcases List.mem_cons.mp h with h | h
  · cases h
  · cases List.eq_of_mem_replicate h
    rfl

def flakyNodes : Nodes (getHiveNodes "") where
  transaction := fun txId => [flaky (some [transferOf txId])]
  accounts := fun _ => flaky [[some "posting-key"]]

theorem truthful_flakyNodes : Truthful config ledgerChain flakyNodes where
  transaction := by
    intro txId attempt hattempt operations _ h
    rw [List.mem_singleton.mp hattempt] at h
    cases mem_flaky h
    rfl
  accounts := by
    intro account rows h
    cases mem_flaky h
    rfl

/-- The keys are asked from the nodes. -/
def nodesAnswer : (c : Call) → c.Reply
  | .getAccountPostingPubkeys account =>
    getAccountPostingPubkeys flakyNodes config account
  | c => answer c

theorem lookedUp_nodesAnswer (i : Nat) : LookedUp config ledgerChain (getHiveNodes "")
    (.resume i nodesAnswer : GateEvent config) :=
  ⟨flakyNodes, truthful_flakyNodes, fun _ => rfl, fun _ => rfl⟩

/-- Alice uploads a file and cancels her claim. -/
def cancelledThroughNodes : List (GateEvent config) :=
  [.spawn (reserveBy "alice"), .spawn (uploadOf 1 "bafy")] ++ List.replicate 6 (.resume 0 nodesAnswer)
    ++ [.spawn (cancelBy "alice" 1)] ++ List.replicate 6 (.resume 0 nodesAnswer)

theorem lookedUp_cancelled :
    ∀ e ∈ cancelledThroughNodes, LookedUp config ledgerChain (getHiveNodes "") e := by
  intro e he
  simp only [cancelledThroughNodes, List.mem_append, List.mem_cons, List.mem_replicate,
    List.not_mem_nil, or_false] at he
  rcases he with (((rfl | rfl) | ⟨_, rfl⟩) | rfl) | ⟨_, rfl⟩
  · trivial
  · trivial
  · exact lookedUp_nodesAnswer 0
  · trivial
  · exact lookedUp_nodesAnswer 0

theorem warranted_from_nodes_cancel :
    (∃ past ∈ (serve config 0 cancelledThroughNodes).traces, ∃ a ∈ past, a.1.warranted = true) ∧
    ∀ q past, (serve config 0 cancelledThroughNodes).Ran q past →
      ∀ a ∈ past, a.1.warranted = true →
        ∃ w₀ who, (q, w₀) ∈ arrivedIn config 0 cancelledThroughNodes ∧ Evolves w₀ a.2 ∧
          Vouched config ledgerChain q w₀.now who ∧ q.Asks config who w₀ a.2 a.1 :=
  ⟨by decide +kernel, warranted_from_nodes config ledgerChain (getHiveNodes "") 0
    cancelledThroughNodes lookedUp_cancelled⟩

end Sampled

end IpfsGate.Server
