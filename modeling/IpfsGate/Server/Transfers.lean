import IpfsGate.Server.Runs

/-!
# Finding a payment in a transaction

The transaction as JSON gives it: operations, each of one action or several, and quantities that
are any number. The search takes the first transfer that the sender authorised, and the checks are
made on that one; a transfer further on is not looked at.
-/
namespace IpfsGate.Server

open Lib (Number)

/-- A `contractPayload`; `quantity` is what `parseFloat` makes of its text. -/
structure Transfer where
  toAccount : String
  symbol : String
  quantity : Number
  memo : String

/-- `contractPayload` is absent when it is not an object. -/
structure ChainAction where
  contractName : String
  contractAction : String
  contractPayload : Option Transfer

/-- `json` is absent when it does not parse; a single action is a list of one. -/
structure ChainJson where
  id : String
  auths : List Account
  json : Option (List ChainAction)

inductive ChainOp where
  | customJson (payload : ChainJson)
  | other

/-- The payload of a tokens/transfer action. -/
def ChainAction.transfer (a : ChainAction) : Option (Option Transfer) :=
  if a.contractName = "tokens" && a.contractAction = "transfer" then some a.contractPayload
  else none

/-- The actions of an operation that the sender authorised. -/
def ChainOp.actions (expectedSender : Account) : ChainOp → List ChainAction
  | .customJson payload =>
    if payload.id = ssc && payload.auths.contains expectedSender then payload.json.getD []
    else []
  | .other => []

/-- `extractTokenTransferOp`. -/
def extractTransfer (operations : List ChainOp) (expectedSender : Account) :
    Except Fault (Option Transfer) :=
  match operations.findSome? (fun op =>
    (op.actions expectedSender).findSome? ChainAction.transfer) with
  | some payload => .ok payload
  | none => .error ⟨"unprocessable_entity",
      "no matching tokens/transfer custom_json op found in transaction"⟩

/-- `paid < required`. -/
def below (paid : Coins) : Number → Bool
  | .fin required => paid < required
  | .posInf => true
  | .negInf => false
  | .nan => false

/-- `validateTransferPayload`, up to the wording of an underpayment. -/
def validateTransfer (cfg : Config) (payload : Option Transfer) (expectedMemo : String)
    (minAmount : Number) : Except Fault Coins :=
  match payload with
  | none => .error ⟨"unprocessable_entity", "invalid payload"⟩
  | some payload =>
    if cfg.toLowerCase payload.toAccount ≠ cfg.gateAccount then
      .error ⟨"unprocessable_entity",
        s!"transfer to wrong account: {payload.toAccount} (expected {cfg.gateAccount})"⟩
    else if payload.symbol ≠ cfg.paymentCurrency then
      .error ⟨"unprocessable_entity",
        s!"wrong currency: {payload.symbol} (expected {cfg.paymentCurrency})"⟩
    else
      match payload.quantity with
      | .fin paid =>
        if below paid minAmount then .error ⟨"unprocessable_entity", "underpaid"⟩
        else if payload.memo ≠ expectedMemo then
          .error ⟨"unprocessable_entity",
            s!"memo mismatch: \"{payload.memo}\" (expected \"{expectedMemo}\")"⟩
        else .ok paid
      | _ => .error ⟨"unprocessable_entity", "underpaid"⟩

/-- Search, then validate. -/
def findPayment (cfg : Config) (operations : List ChainOp) (sender : Account)
    (expectedMemo : String) (minAmount : Number) : Except Fault Coins := do
  let payload ← extractTransfer operations sender
  validateTransfer cfg payload expectedMemo minAmount

/-! ## What is asked for -/

/-- A tokens/transfer action of the transaction that the sender authorised, and its payload. -/
structure Carries (operations : List ChainOp) (sender : Account) (t : Option Transfer) : Prop where
  found : ∃ payload actions action, .customJson payload ∈ operations ∧ payload.id = ssc ∧
    sender ∈ payload.auths ∧ payload.json = some actions ∧ action ∈ actions ∧
    action.contractName = "tokens" ∧ action.contractAction = "transfer" ∧
    action.contractPayload = t

/-- The amount is finite and at least the minimum. -/
def AtLeast (minAmount : Number) (quantity : Number) : Prop :=
  ∃ paid, quantity = .fin paid ∧
    match minAmount with
    | .fin required => required ≤ paid
    | .posInf => False
    | .negInf => True
    | .nan => False

/-- The transfer is to the gate, in its currency, with the memo. -/
structure Addressed (cfg : Config) (expectedMemo : String) (t : Transfer) : Prop where
  account : cfg.toLowerCase t.toAccount = cfg.gateAccount
  symbol : t.symbol = cfg.paymentCurrency
  memo : t.memo = expectedMemo

/-- The transfer is the payment. -/
structure Pays (cfg : Config) (expectedMemo : String) (minAmount : Number) (t : Transfer) :
    Prop extends Addressed cfg expectedMemo t where
  amount : AtLeast minAmount t.quantity

/-- The transfers that the sender authorised, in the order of the transaction. -/
def authorised (operations : List ChainOp) (sender : Account) : List (Option Transfer) :=
  (operations.flatMap (fun op => op.actions sender)).filterMap ChainAction.transfer

/-- The payment is found if and only if the transaction has one. -/
def Matches (cfg : Config) (operations : List ChainOp) (sender : Account) (expectedMemo : String)
    (minAmount : Number) : Prop :=
  (∃ paid, findPayment cfg operations sender expectedMemo minAmount = .ok paid) ↔
    ∃ t, Carries operations sender (some t) ∧ Pays cfg expectedMemo minAmount t

/-- The first authorised transfer is the payment, or none is; and the minimum is a number, unless
the first one fails otherwise. -/
structure FirstDecides (cfg : Config) (operations : List ChainOp) (sender : Account)
    (expectedMemo : String) (minAmount : Number) : Prop where
  first : (∃ t, (authorised operations sender).head? = some (some t) ∧
      Pays cfg expectedMemo minAmount t) ∨
    ∀ t, some t ∈ authorised operations sender → ¬ Pays cfg expectedMemo minAmount t
  number : minAmount = .nan → ∀ t, (authorised operations sender).head? = some (some t) →
    Addressed cfg expectedMemo t → t.quantity.isFinite = false

section Search

variable {cfg : Config} {operations : List ChainOp} {sender : Account} {expectedMemo : String}
  {minAmount : Number}

/-- The nested search stops at the first authorised transfer. -/
theorem extractTransfer_eq (operations : List ChainOp) (sender : Account) :
    extractTransfer operations sender =
      match (authorised operations sender).head? with
      | some payload => .ok payload
      | none => .error ⟨"unprocessable_entity",
          "no matching tokens/transfer custom_json op found in transaction"⟩ := by
  unfold extractTransfer authorised
  rw [List.filterMap_flatMap, List.head?_flatMap]
  simp only [List.head?_filterMap]

theorem transfer_eq_some {a : ChainAction} {t : Option Transfer} : a.transfer = some t ↔
    a.contractName = "tokens" ∧ a.contractAction = "transfer" ∧ a.contractPayload = t := by
  unfold ChainAction.transfer
  split
  · rename_i h
    simp only [Bool.and_eq_true, decide_eq_true_eq] at h
    simp [h]
  · rename_i h
    simp only [Bool.and_eq_true, decide_eq_true_eq] at h
    constructor
    · intro hnone
      cases hnone
    · exact fun hall => absurd ⟨hall.1, hall.2.1⟩ h

theorem mem_actions {op : ChainOp} {a : ChainAction} : a ∈ op.actions sender ↔
    ∃ payload actions, op = .customJson payload ∧ payload.id = ssc ∧ sender ∈ payload.auths ∧
      payload.json = some actions ∧ a ∈ actions := by
  cases op with
  | other =>
    refine iff_of_false List.not_mem_nil ?_
    rintro ⟨_, _, h, _⟩
    cases h
  | customJson payload =>
    change (a ∈ if payload.id = ssc && payload.auths.contains sender then payload.json.getD []
      else []) ↔ _
    constructor
    · intro h
      split at h
      · rename_i hauth
        simp only [Bool.and_eq_true, decide_eq_true_eq, List.contains_iff_mem] at hauth
        cases hjson : payload.json with
        | none =>
          rw [hjson] at h
          exact absurd h List.not_mem_nil
        | some actions =>
          rw [hjson] at h
          exact ⟨payload, actions, rfl, hauth.1, hauth.2, hjson, h⟩
      · exact absurd h List.not_mem_nil
    · rintro ⟨payload', actions, heq, hid, hauth, hjson, ha⟩
      cases heq
      have hcond : (decide (payload.id = ssc) && payload.auths.contains sender) = true := by
        simp only [Bool.and_eq_true, decide_eq_true_eq, List.contains_iff_mem]
        exact ⟨hid, hauth⟩
      rw [if_pos hcond, hjson]
      exact ha

theorem carries_iff {t : Option Transfer} :
    Carries operations sender t ↔ t ∈ authorised operations sender := by
  unfold authorised
  rw [List.mem_filterMap]
  constructor
  · rintro ⟨payload, actions, a, hop, hid, hauth, hjson, ha, htransfer⟩
    refine ⟨a, List.mem_flatMap.mpr ⟨_, hop, ?_⟩, transfer_eq_some.mpr htransfer⟩
    exact mem_actions.mpr ⟨payload, actions, rfl, hid, hauth, hjson, ha⟩
  · rintro ⟨a, ha, htransfer⟩
    obtain ⟨op, hop, ha⟩ := List.mem_flatMap.mp ha
    obtain ⟨payload, actions, rfl, hid, hauth, hjson, ha⟩ := mem_actions.mp ha
    exact ⟨payload, actions, a, hop, hid, hauth, hjson, ha, transfer_eq_some.mp htransfer⟩

/-- What the checks let through. -/
theorem validateTransfer_ok_iff {t : Transfer} {paid : Coins} :
    validateTransfer cfg (some t) expectedMemo minAmount = .ok paid ↔
      Addressed cfg expectedMemo t ∧ t.quantity = .fin paid ∧ below paid minAmount = false := by
  constructor
  · intro h
    unfold validateTransfer at h
    dsimp only at h
    split at h
    · cases h
    · rename_i haccount
      split at h
      · cases h
      · rename_i hsymbol
        split at h
        · rename_i q hq
          split at h
          · cases h
          · rename_i hbelow
            split at h
            · cases h
            · rename_i hmemo
              cases h
              exact ⟨⟨not_not.mp haccount, not_not.mp hsymbol, not_not.mp hmemo⟩, hq,
                Bool.not_eq_true _ ▸ hbelow⟩
        · cases h
  · rintro ⟨⟨haccount, hsymbol, hmemo⟩, hq, hbelow⟩
    unfold validateTransfer
    dsimp only
    rw [if_neg (not_not.mpr haccount), if_neg (not_not.mpr hsymbol), hq]
    dsimp only
    rw [hbelow, if_neg Bool.false_ne_true, if_neg (not_not.mpr hmemo)]

theorem findPayment_ok_iff {paid : Coins} :
    findPayment cfg operations sender expectedMemo minAmount = .ok paid ↔
      ∃ t, (authorised operations sender).head? = some (some t) ∧ Addressed cfg expectedMemo t ∧
        t.quantity = .fin paid ∧ below paid minAmount = false := by
  unfold findPayment
  rw [extractTransfer_eq]
  cases (authorised operations sender).head? with
  | none =>
    refine iff_of_false (fun h => by cases h) ?_
    rintro ⟨t, h, _⟩
    cases h
  | some payload =>
    cases payload with
    | none =>
      refine iff_of_false (fun h => by cases h) ?_
      rintro ⟨t, h, _⟩
      cases h
    | some t =>
      refine validateTransfer_ok_iff.trans ⟨fun h => ⟨t, rfl, h⟩, ?_⟩
      rintro ⟨t', h, hok⟩
      cases h
      exact hok

/-- Against a minimum that is a number the checks ask for the payment. -/
theorem below_eq_false_iff {paid : Coins} (h : minAmount ≠ .nan) :
    below paid minAmount = false ↔ AtLeast minAmount (.fin paid) := by
  unfold AtLeast
  constructor
  · intro hbelow
    refine ⟨paid, rfl, ?_⟩
    cases minAmount with
    | fin required => exact not_lt.mp (of_decide_eq_false hbelow)
    | posInf => cases hbelow
    | negInf => trivial
    | nan => exact absurd rfl h
  · rintro ⟨paid', heq, hle⟩
    cases heq
    cases minAmount with
    | fin required => exact decide_eq_false (not_lt.mpr hle)
    | posInf => exact hle.elim
    | negInf => rfl
    | nan => exact hle.elim

/-- Against a minimum that is a number, the first transfer is found if it is the payment. -/
theorem findPayment_iff_head (h : minAmount ≠ .nan) :
    (∃ paid, findPayment cfg operations sender expectedMemo minAmount = .ok paid) ↔
      ∃ t, (authorised operations sender).head? = some (some t) ∧
        Pays cfg expectedMemo minAmount t := by
  simp only [findPayment_ok_iff]
  constructor
  · rintro ⟨paid, t, hhead, haddressed, hq, hbelow⟩
    exact ⟨t, hhead, haddressed, hq ▸ (below_eq_false_iff h).mp hbelow⟩
  · rintro ⟨t, hhead, hpays⟩
    obtain ⟨paid, hq, _⟩ := hpays.amount
    refine ⟨paid, t, hhead, hpays.toAddressed, hq, (below_eq_false_iff h).mpr ?_⟩
    exact hq ▸ hpays.amount

theorem not_pays_nan {t : Transfer} : ¬ Pays cfg expectedMemo .nan t := by
  rintro ⟨_, _, _, h⟩
  exact h

/-- No amount is below what is not a number, so the first transfer need only be addressed. -/
theorem findPayment_nan :
    (∃ paid, findPayment cfg operations sender expectedMemo .nan = .ok paid) ↔
      ∃ t, (authorised operations sender).head? = some (some t) ∧ Addressed cfg expectedMemo t ∧
        t.quantity.isFinite = true := by
  simp only [findPayment_ok_iff, Number.isFinite_iff]
  constructor
  · rintro ⟨paid, t, hhead, haddressed, hq, _⟩
    exact ⟨t, hhead, haddressed, paid, hq⟩
  · rintro ⟨t, hhead, haddressed, paid, hq⟩
    exact ⟨paid, t, hhead, haddressed, hq, rfl⟩

/-- A payment is found if and only if there is one, exactly if the first transfer decides. -/
theorem matches_iff (cfg : Config) (operations : List ChainOp) (sender : Account)
    (expectedMemo : String) (minAmount : Number) :
    Matches cfg operations sender expectedMemo minAmount ↔
      FirstDecides cfg operations sender expectedMemo minAmount := by
  unfold Matches
  simp only [carries_iff]
  by_cases hnan : minAmount = .nan
  · rw [hnan, findPayment_nan]
    have hnone : ¬ ∃ t, some t ∈ authorised operations sender ∧ Pays cfg expectedMemo .nan t :=
      fun ⟨_, _, h⟩ => not_pays_nan h
    constructor
    · intro h
      refine ⟨Or.inr (fun t _ => not_pays_nan), fun _ t hhead haddressed => ?_⟩
      exact Bool.eq_false_iff.mpr (fun hfin => hnone (h.mp ⟨t, hhead, haddressed, hfin⟩))
    · intro h
      refine iff_of_false ?_ hnone
      rintro ⟨t, hhead, haddressed, hfin⟩
      rw [h.number rfl t hhead haddressed] at hfin
      cases hfin
  · rw [findPayment_iff_head hnan]
    constructor
    · intro h
      refine ⟨?_, fun heq => absurd heq hnan⟩
      by_cases hsome : ∃ t, some t ∈ authorised operations sender ∧
          Pays cfg expectedMemo minAmount t
      · exact Or.inl (h.mpr hsome)
      · exact Or.inr (fun t ht hpays => hsome ⟨t, ht, hpays⟩)
    · intro h
      constructor
      · rintro ⟨t, hhead, hpays⟩
        exact ⟨t, List.mem_of_mem_head? (Option.mem_def.mpr hhead), hpays⟩
      · rintro ⟨t, ht, hpays⟩
        exact h.first.resolve_right (fun hno => hno t ht hpays)

end Search

/-! ## The handlers' view -/

/-- What the handlers see of a quantity: a negative amount pays for nothing. -/
def amountOf : Number → Option Amount
  | .fin q => if h : 0 ≤ q then some ⟨q, h⟩ else none
  | _ => none

def Transfer.payload (t : Transfer) : TransferPayload :=
  { toAccount := t.toAccount, symbol := t.symbol, quantity := amountOf t.quantity, memo := t.memo }

def ChainAction.action (a : ChainAction) : Action :=
  { contractName := a.contractName, contractAction := a.contractAction,
    contractPayload := a.contractPayload.map Transfer.payload }

def ChainOp.operation : ChainOp → Operation
  | .customJson payload =>
    .customJson
      { id := payload.id, auths := payload.auths,
        actions := payload.json.map (List.map ChainAction.action) }
  | .other => .other

section Handlers

variable {cfg : Config} {operations : List ChainOp} {sender : Account} {expectedMemo : String}
  {minAmount : Number}

theorem findSome?_action (actions : List ChainAction) :
    (actions.map ChainAction.action).findSome? (fun a =>
      if a.contractName = "tokens" && a.contractAction = "transfer" then some a.contractPayload
      else none) =
      (actions.findSome? ChainAction.transfer).map (Option.map Transfer.payload) := by
  rw [List.findSome?_map, List.map_findSome?]
  congr 1
  funext a
  change (if a.contractName = "tokens" && a.contractAction = "transfer" then
    some (a.contractPayload.map Transfer.payload) else none) = a.transfer.map _
  unfold ChainAction.transfer
  split <;> rfl

theorem tokenTransferOf_operation (op : ChainOp) : tokenTransferOf sender op.operation =
    ((op.actions sender).findSome? ChainAction.transfer).map (Option.map Transfer.payload) := by
  cases op with
  | other => rfl
  | customJson payload =>
    rw [← findSome?_action]
    change (if payload.id = ssc && payload.auths.contains sender then
      ((payload.json.map (List.map ChainAction.action)).getD []).findSome? _ else none) =
        ((if payload.id = ssc && payload.auths.contains sender then payload.json.getD []
          else []).map ChainAction.action).findSome? _
    split
    · cases payload.json <;> rfl
    · rfl

/-- The handlers search the transaction alike. -/
theorem extractTokenTransferOp_operation (operations : List ChainOp) (sender : Account) :
    extractTokenTransferOp (operations.map ChainOp.operation) sender =
      (extractTransfer operations sender).map (Option.map Transfer.payload) := by
  have hfind : (operations.map ChainOp.operation).findSome? (tokenTransferOf sender) =
      (operations.findSome? (fun op =>
        (op.actions sender).findSome? ChainAction.transfer)).map (Option.map Transfer.payload) := by
    rw [List.findSome?_map, List.map_findSome?]
    congr 1
    funext op
    exact tokenTransferOf_operation op
  unfold extractTokenTransferOp extractTransfer
  rw [hfind]
  cases operations.findSome? (fun op => (op.actions sender).findSome? ChainAction.transfer) <;> rfl

/-- A price: what a handler may ask for. -/
def IsPrice : Number → Prop
  | .fin required => 0 ≤ required
  | .posInf => True
  | _ => False

theorem covers_eq (paid : Coins) (minAmount : Number) :
    covers paid minAmount = !below paid minAmount := by
  cases minAmount with
  | fin required =>
    change decide (required ≤ paid) = !decide (paid < required)
    rw [← decide_not]
    exact decide_eq_decide.mpr not_lt.symm
  | _ => rfl

/-- A negative amount is below every price. -/
theorem below_of_neg {paid : Coins} (hprice : IsPrice minAmount) (h : paid < 0) :
    below paid minAmount = true := by
  cases minAmount with
  | fin required => exact decide_eq_true (lt_of_lt_of_le h hprice)
  | posInf => rfl
  | _ => exact hprice.elim

/-- The handlers' checks on a quantity, and these. -/
theorem amountOf_iff (hprice : IsPrice minAmount) {quantity : Number} {paid : Coins} :
    (∃ amount, amountOf quantity = some amount ∧ covers amount.value minAmount = true ∧
      amount.value = paid) ↔ quantity = .fin paid ∧ below paid minAmount = false := by
  simp only [covers_eq, Bool.not_eq_true']
  cases quantity with
  | fin q =>
    by_cases hq : 0 ≤ q
    · have hamount : amountOf (.fin q) = some ⟨q, hq⟩ := dif_pos hq
      rw [hamount]
      constructor
      · rintro ⟨amount, heq, hcovers, rfl⟩
        cases heq
        exact ⟨rfl, hcovers⟩
      · rintro ⟨heq, hbelow⟩
        cases heq
        exact ⟨_, rfl, hbelow, rfl⟩
    · have hamount : amountOf (.fin q) = none := dif_neg hq
      rw [hamount]
      refine iff_of_false ?_ ?_
      · rintro ⟨_, h, _⟩
        cases h
      · rintro ⟨heq, hbelow⟩
        cases heq
        rw [below_of_neg hprice (not_le.mp hq)] at hbelow
        cases hbelow
  | _ =>
    refine iff_of_false ?_ ?_
    · rintro ⟨_, h, _⟩
      cases h
    · rintro ⟨h, _⟩
      cases h

/-- What the handlers' checks let through. -/
theorem validateTransferPayload_ok_iff {p : TransferPayload} {amount : Amount} :
    (∃ currency, validateTransferPayload cfg (some p) expectedMemo minAmount =
      .ok { amount, currency }) ↔
      (cfg.toLowerCase p.toAccount = cfg.gateAccount ∧ p.symbol = cfg.paymentCurrency ∧
        p.memo = expectedMemo) ∧ p.quantity = some amount ∧
          covers amount.value minAmount = true := by
  constructor
  · rintro ⟨currency, h⟩
    unfold validateTransferPayload at h
    dsimp only at h
    split at h
    · cases h
    · rename_i haccount
      split at h
      · cases h
      · rename_i hsymbol
        split at h
        · cases h
        · rename_i q hq
          split at h
          · cases h
          · rename_i hcovers
            split at h
            · cases h
            · rename_i hmemo
              cases h
              refine ⟨⟨not_not.mp haccount, not_not.mp hsymbol, not_not.mp hmemo⟩, hq, ?_⟩
              simpa using hcovers
  · rintro ⟨⟨haccount, hsymbol, hmemo⟩, hq, hcovers⟩
    refine ⟨p.symbol, ?_⟩
    unfold validateTransferPayload
    dsimp only
    rw [if_neg (not_not.mpr haccount), if_neg (not_not.mpr hsymbol), hq]
    dsimp only
    rw [hcovers, Bool.not_true, if_neg Bool.false_ne_true, if_neg (not_not.mpr hmemo)]

/-- The handlers let the same transfers through, for the same amounts. -/
theorem validateTransferPayload_iff (hprice : IsPrice minAmount) {payload : Option Transfer}
    {paid : Coins} : (∃ amount currency, validateTransferPayload cfg
      (payload.map Transfer.payload) expectedMemo minAmount = .ok { amount, currency } ∧
        amount.value = paid) ↔
        validateTransfer cfg payload expectedMemo minAmount = .ok paid := by
  cases payload with
  | none =>
    refine iff_of_false ?_ (fun h => by cases h)
    rintro ⟨_, _, h, _⟩
    cases h
  | some t =>
    rw [validateTransfer_ok_iff, ← amountOf_iff hprice]
    constructor
    · rintro ⟨amount, currency, hok, hvalue⟩
      obtain ⟨⟨haccount, hsymbol, hmemo⟩, hq, hcovers⟩ :=
        validateTransferPayload_ok_iff.mp ⟨currency, hok⟩
      exact ⟨⟨haccount, hsymbol, hmemo⟩, amount, hq, hcovers, hvalue⟩
    · rintro ⟨⟨haccount, hsymbol, hmemo⟩, amount, hq, hcovers, hvalue⟩
      obtain ⟨currency, hok⟩ := (validateTransferPayload_ok_iff (p := t.payload)).mpr
        ⟨⟨haccount, hsymbol, hmemo⟩, hq, hcovers⟩
      exact ⟨amount, currency, hok, hvalue⟩

end Handlers

section Sampled

open Sample

def tokensTransfer (toAccount : Account) (amount : Coins) (memo : String) : ChainAction :=
  { contractName := "tokens", contractAction := "transfer",
    contractPayload := some
      { toAccount, symbol := "SWAP.HIVE", quantity := .fin amount, memo } }

/-- Alice pays Carol and the gate in one batch. -/
def batch : List ChainOp :=
  [.customJson
    { id := ssc, auths := ["alice"],
      json := some [tokensTransfer "carol" 5 "thanks",
        tokensTransfer "gate" 24 "ipfs-gate:upload:1"] }]

/-- Her payment is in the transaction, and is not found. -/
theorem payment_missed :
    (∃ t, Carries batch "alice" (some t) ∧ Pays config "ipfs-gate:upload:1" (.fin 24) t) ∧
    findPayment config batch "alice" "ipfs-gate:upload:1" (.fin 24) = .error
      ⟨"unprocessable_entity", "transfer to wrong account: carol (expected gate)"⟩ ∧
    ¬ Matches config batch "alice" "ipfs-gate:upload:1" (.fin 24) := by
  have hpays : ∃ t, Carries batch "alice" (some t) ∧
      Pays config "ipfs-gate:upload:1" (.fin 24) t := by
    refine ⟨_, ⟨_, _, tokensTransfer "gate" 24 "ipfs-gate:upload:1", List.mem_cons_self, rfl,
      List.mem_cons_self, rfl, List.mem_cons_of_mem _ List.mem_cons_self, rfl, rfl, rfl⟩,
      ⟨rfl, rfl, rfl⟩, 24, rfl, ?_⟩
    exact le_rfl
  have hmissed : findPayment config batch "alice" "ipfs-gate:upload:1" (.fin 24) = .error
      ⟨"unprocessable_entity", "transfer to wrong account: carol (expected gate)"⟩ := by decide
  refine ⟨hpays, hmissed, fun h => ?_⟩
  obtain ⟨paid, hfound⟩ := h.mpr hpays
  rw [hmissed] at hfound
  cases hfound

end Sampled

end IpfsGate.Server
