import IpfsGate.Server.Guardians
import IpfsGate.Server.Kills

/-!
# Pins without a claim

A database migrated from the time before claims holds active pins that no claim mirrors. Two
calls take pins away by uploader. One of them reports a CID from its pins alone, the other
reconciles only CIDs of claims, so a guardian behind a pin without a claim can be passed over.
-/
namespace IpfsGate.Server

open Quota Moderation LedgerRun BatonPass
open Lib (Table)

inductive UploaderCall where
  | removePinForUploader (cid : Cid) (uploader : Account)
  | banAccount (hiveAccount reason : String) (policy : Option RefundPolicy) (admin : String)

namespace UploaderCall

/-- The CIDs a successful call reports as having no funder left, and the database it leaves. -/
def run (cfg : Config) (db : Db) (t : Int) : UploaderCall → Except Fault (List Cid × Db)
  | removePinForUploader cid uploader =>
    let r := Quota.removePinForUploader db t cid uploader
    .ok (if r.1.fullyUnpinned then [cid] else [], r.2)
  | banAccount hiveAccount reason policy admin =>
    (Moderation.banAccount cfg db t hiveAccount reason policy admin).map
      (fun r => (r.1.cidsToUnpin, r.2))

end UploaderCall

/-- The CID had active pins and every one of them is ended. -/
structure LastEnded (before after : Db) (cid : Cid) : Prop where
  hosted : ∃ p, ActivePin before cid p
  ended : ∀ p, ActivePin before cid p → ∀ q ∈ after.pins, q.id = p.id → q.status ≠ .active

/-- A guardian that may take over: it was queued, and its owner is not banned. -/
structure Heir (before after : Db) (cid : Cid) (d : Claim) : Prop where
  queued : DormantGuardian before cid d
  allowed : isAccountBanned after d.owner = false

/-- The first of the heirs is active. -/
def Inherited (before after : Db) (cid : Cid) : Prop :=
  ∃ d, Heir before after cid d ∧ (∀ e, Heir before after cid e → QueuesBefore d e) ∧
    ∃ g, Promoted before after cid g ∧ g.claimId = d.claimId

/-- The baton-pass law for calls that go by uploader. -/
structure BatonObeyed (before after : Db) (unpins : List Cid) : Prop where
  succeeded : ∀ cid, LastEnded before after cid → Inherited before after cid ∨ cid ∈ unpins
  unpinned : ∀ cid ∈ unpins,
    (∀ p, ¬ ActivePin after cid p) ∧ ∀ g, ¬ DormantGuardian after cid g

/-- A CID that the ban leaves without a host is one the account has an active claim on, and the
next guardian of another account is not banned either. -/
structure BanOrderly (db : Db) (account : Account) (cid : Cid) : Prop where
  claimed : ∃ c ∈ db.claims, c.cid = cid ∧ c.owner = account ∧ c.state = .active
  next : ∀ g, DormantGuardian db cid g → g.owner ≠ account →
    (∀ e, DormantGuardian db cid e → e.owner ≠ account → QueuesBefore g e) →
    isAccountBanned db g.owner = false

/-- The databases on which a call obeys the law. -/
def UploaderCall.Orderly (cfg : Config) (db : Db) : UploaderCall → Prop
  | removePinForUploader cid uploader =>
    (∃ p, ActivePin db cid p ∧ p.uploader ≠ uploader) ∨ ∀ g, ¬ DormantGuardian db cid g
  | banAccount hiveAccount _ _ _ => ∀ cid, (∃ p, ActivePin db cid p) →
    (∀ p, ActivePin db cid p → p.uploader = cfg.toLowerCase hiveAccount) →
    BanOrderly db (cfg.toLowerCase hiveAccount) cid

section Remove

variable {db : Db} {t : Int} {cid : Cid} {uploader : Account}

theorem activePin_removePin {other : Cid} {p : Pin} :
    ActivePin (removePinForUploader db t cid uploader).2 other p ↔
      ActivePin db other p ∧ ¬ (p.cid = cid ∧ p.uploader = uploader) := by
  unfold removePinForUploader
  rw [active_endPins (by decide)]
  simp

theorem dormantGuardian_removePin {other : Cid} {g : Claim} :
    DormantGuardian (removePinForUploader db t cid uploader).2 other g ↔
      DormantGuardian db other g := ⟨fun h => h.congr rfl, fun h => h.congr rfl⟩

/-- What is reported: no active pin is left. -/
theorem fullyUnpinned_iff :
    (removePinForUploader db t cid uploader).1.fullyUnpinned = true ↔
      ∀ p, ActivePin db cid p → p.uploader = uploader := by
  have hreport : (removePinForUploader db t cid uploader).1.fullyUnpinned =
      !hasActivePinForCid (removePinForUploader db t cid uploader).2 cid := rfl
  rw [hreport, Bool.not_eq_true', hasActivePinForCid_false]
  constructor
  · intro h p hp
    by_contra hne
    exact h p (activePin_removePin.mpr ⟨hp, fun hm => hne hm.2⟩)
  · intro h p hp
    obtain ⟨hold, hkeep⟩ := activePin_removePin.mp hp
    exact hkeep ⟨hold.cid_eq, h p hold⟩

theorem removePin_obeyed_iff :
    BatonObeyed db (removePinForUploader db t cid uploader).2
        (if (removePinForUploader db t cid uploader).1.fullyUnpinned then [cid] else []) ↔
      (∃ p, ActivePin db cid p ∧ p.uploader ≠ uploader) ∨ ∀ g, ¬ DormantGuardian db cid g := by
  constructor
  · intro h
    by_cases hother : ∃ p, ActivePin db cid p ∧ p.uploader ≠ uploader
    · exact Or.inl hother
    · right
      have hall : ∀ p, ActivePin db cid p → p.uploader = uploader := by
        intro p hp
        by_contra hne
        exact hother ⟨p, hp, hne⟩
      rw [if_pos (fullyUnpinned_iff.mpr hall)] at h
      intro g hg
      exact (h.unpinned cid List.mem_cons_self).2 g (dormantGuardian_removePin.mpr hg)
  · intro h
    constructor
    · intro x hx
      right
      obtain ⟨p, hp⟩ := hx.hosted
      -- a pin that the call did not select is still active, so the CID is the call's own
      have hsel : ∀ q, ActivePin db x q → q.cid = cid ∧ q.uploader = uploader := by
        intro q hq
        by_contra hkeep
        have hactive : ActivePin (removePinForUploader db t cid uploader).2 x q :=
          activePin_removePin.mpr ⟨hq, hkeep⟩
        exact hx.ended q hq q hactive.mem rfl hactive.active
      have hxc : x = cid := hp.cid_eq.symm.trans (hsel p hp).1
      subst hxc
      rw [if_pos (fullyUnpinned_iff.mpr (fun q hq => (hsel q hq).2))]
      exact List.mem_cons_self
    · intro x hx
      by_cases hfull : (removePinForUploader db t cid uploader).1.fullyUnpinned = true
      · rw [if_pos hfull, List.mem_singleton] at hx
        subst hx
        have hmine := fullyUnpinned_iff.mp hfull
        constructor
        · intro p hp
          obtain ⟨hold, hkeep⟩ := activePin_removePin.mp hp
          exact hkeep ⟨hold.cid_eq, hmine p hold⟩
        · intro g hg
          rcases h with ⟨p, hp, hne⟩ | hnone
          · exact hne (hmine p hp)
          · exact hnone g (dormantGuardian_removePin.mp hg)
      · rw [if_neg hfull] at hx
        exact absurd hx List.not_mem_nil

end Remove

section Ban

variable {db : Db} {t : Int} {account reason : String} {policy : RefundPolicy} {admin : String}

/-- The CIDs the ban reconciles. -/
abbrev reconciledCids (db : Db) (account : Account) : List Cid :=
  (((db.claims.filter (isOwnedBy account)).filter (fun c => c.state = .active)).map
    Claim.cid).eraseDups

theorem mem_reconciledCids {cid : Cid} :
    cid ∈ reconciledCids db account ↔
      ∃ c ∈ db.claims, c.cid = cid ∧ c.owner = account ∧ c.state = .active := by
  simp only [List.mem_eraseDups, List.mem_map, List.mem_filter, Table.mem_filter, isOwnedBy,
    Bool.and_eq_true, decide_eq_true_eq]
  constructor
  · rintro ⟨c, ⟨⟨hc, hown, _⟩, hact⟩, hcid⟩
    exact ⟨c, hc, hcid, hown, hact⟩
  · rintro ⟨c, hc, hcid, hown, hact⟩
    exact ⟨c, ⟨⟨hc, hown, by simp [isOpen, hact]⟩, hact⟩, hcid⟩

theorem activePin_voidAccount {cid : Cid} {p : Pin} :
    ActivePin (voidAccount db t account reason policy admin) cid p ↔
      ActivePin db cid p ∧ p.uploader ≠ account := by
  unfold voidAccount
  rw [active_endPins (by decide), decide_eq_false_iff_not]
  exact and_congr_left (fun _ => ⟨fun h => h.congr rfl, fun h => h.congr rfl⟩)

theorem dormantGuardian_voidAccount {cid : Cid} {g : Claim} :
    DormantGuardian (voidAccount db t account reason policy admin) cid g ↔
      DormantGuardian db cid g ∧ g.owner ≠ account := by
  have hclaims : ∀ c, c ∈ (voidAccount db t account reason policy admin).claims ↔
      ∃ d ∈ db.claims, c = closedClaim .cancelled (isOwnedBy account) d := fun _ => mem_closeClaims
  constructor
  · intro hg
    obtain ⟨hold, hsel⟩ := dormantGuardian_of_closed (by decide) hclaims hg
    refine ⟨hold, ?_⟩
    simpa [isOwnedBy, isOpen, hold.dormant] using hsel
  · rintro ⟨hg, hne⟩
    have hsel : isOwnedBy account g = false := by simp [isOwnedBy, hne]
    exact ⟨(hclaims g).mpr ⟨g, hg.mem, (closedClaim_of_skip hsel).symm⟩, hg.cid_eq, hg.dormant,
      hg.guardian⟩

theorem closes_voidAccount : Closes db (voidAccount db t account reason policy admin) :=
  closes_of_closeClaims (by decide) (by decide) (fun _ => mem_closeClaims)

variable (db t account reason policy admin) in
/-- What the ban does to one CID. -/
theorem share_ban (cid : Cid) :
    Share (voidAccount db t account reason policy admin) t (reconciledCids db account) cid
      (cid ∈ (banTransaction db t account reason policy admin).1.cidsToUnpin)
      (banTransaction db t account reason policy admin).2 := by
  have hloop := reconcileAll_share t cid (reconciledCids db account) (Lib.nodup_eraseDups _)
    (voidAccount db t account reason policy admin)
  cases hloop with
  | skipped hn hs hu => exact .skipped hn ⟨hs.pins, hs.claims⟩ hu
  | stepped a b r hm ha hnext hr hb hu => exact .stepped a b r hm ha hnext hr ⟨hb.pins, hb.claims⟩ hu

theorem banned_after_ban {x : Account} :
    isAccountBanned (banTransaction db t account reason policy admin).2 x = false ↔
      x ≠ account ∧ isAccountBanned db x = false := by
  have hstands := banTransaction_stands db t account reason policy admin
  simp only [← Bool.not_eq_true]
  constructor
  · intro h
    refine ⟨?_, fun hx => h (hstands.1.banned x hx)⟩
    rintro rfl
    exact h hstands.2
  · rintro ⟨hne, hold⟩ h
    rcases banTransaction_registers.2 x h with hx | hx
    · exact hold hx
    · exact hne hx

/-- A pin of another account keeps its CID hosted, whatever the loop does. -/
theorem kept_of_share {mid after : Db} {cids : List Cid} {cid : Cid} {U : Prop}
    (hs : Share mid t cids cid U after) {p : Pin} (hp : p ∈ mid.pins) (hcid : p.cid = cid) :
    p ∈ after.pins := by
  cases hs with
  | skipped hn hsame hu => exact (hsame.pins p hcid).mp hp
  | stepped a b r hm ha hnext hr hb hu =>
    have hpa := (ha.pins p hcid).mp hp
    refine (hb.pins p hcid).mp ?_
    cases hr with
    | hosted q hq => exact hpa
    | dropped hno hq => exact hpa
    | promoted g hno hg hfirst => exact mem_pins_promote.mpr (Or.inl hpa)

/-- The ban ends the last pin of a CID exactly if all its active pins were the account's. -/
theorem lastEnded_ban_iff {cid : Cid} :
    LastEnded db (banTransaction db t account reason policy admin).2 cid ↔
      (∃ p, ActivePin db cid p) ∧ ∀ p, ActivePin db cid p → p.uploader = account := by
  have hshare := share_ban db t account reason policy admin cid
  constructor
  · intro h
    refine ⟨h.hosted, fun p hp => ?_⟩
    by_contra hne
    have hmid : ActivePin (voidAccount db t account reason policy admin) cid p :=
      activePin_voidAccount.mpr ⟨hp, hne⟩
    exact h.ended p hp p (kept_of_share hshare hmid.mem hmid.cid_eq) rfl hp.active
  · rintro ⟨hosted, hmine⟩
    refine ⟨hosted, fun p hp q hq hid hactive => ?_⟩
    have hended : leftPin t .banned (fun _ => some reason) (fun p => p.uploader = account) p ∈
        (voidAccount db t account reason policy admin).pins := mem_endPins.mpr ⟨p, hp.mem, rfl⟩
    have hafter := kept_of_share hshare hended (by rw [leftPin_cid]; exact hp.cid_eq)
    have hqp := Table.eq_of_key hq hafter (by simpa using hid)
    rw [hqp, leftPin_active (by decide), decide_eq_false_iff_not] at hactive
    exact hactive.2 (hmine p hp)

theorem heir_ban_iff {cid : Cid} {d : Claim} :
    Heir db (banTransaction db t account reason policy admin).2 cid d ↔
      DormantGuardian (voidAccount db t account reason policy admin) cid d ∧
        isAccountBanned db d.owner = false := by
  rw [dormantGuardian_voidAccount]
  constructor
  · rintro ⟨hd, hallowed⟩
    obtain ⟨hne, hold⟩ := banned_after_ban.mp hallowed
    exact ⟨⟨hd, hne⟩, hold⟩
  · rintro ⟨⟨hd, hne⟩, hold⟩
    exact ⟨hd, banned_after_ban.mpr ⟨hne, hold⟩⟩

/-- Whoever inherits is the next guardian of another account, and not banned. -/
theorem orderly_of_succeeded {cid : Cid}
    (h : Inherited db (banTransaction db t account reason policy admin).2 cid ∨
      cid ∈ (banTransaction db t account reason policy admin).1.cidsToUnpin) :
    BanOrderly db account cid := by
  cases share_ban db t account reason policy admin cid with
  | skipped hn hsame hu =>
    rcases h with ⟨d, _, _, g, hg, _⟩ | h
    · exact (closes_voidAccount.not_promoted ((hsame.claims g hg.cid_eq).mpr hg.mem) hg.active
        hg.was_dormant).elim
    · exact absurd h hu
  | stepped a b r hm ha hnext hr hb hu =>
    refine ⟨mem_reconciledCids.mp hm, fun g hg hne hfirst => ?_⟩
    have hgmid : DormantGuardian (voidAccount db t account reason policy admin) cid g :=
      dormantGuardian_voidAccount.mpr ⟨hg, hne⟩
    have hga := ha.dormantGuardian.mp hgmid
    rcases h with ⟨d, hheir, _, g', hg', hid⟩ | h
    · obtain ⟨a', g₀, hma', _, _, hg₀, hfirst₀, _, hall⟩ := promoted_inv closes_voidAccount
        (.stepped a b r hm ha hnext hr hb hu) hg'
      have hd := hma'.dormantGuardian.mp (heir_ban_iff.mp hheir).1
      have hid₀ : d.claimId = g₀.claimId := by
        rw [← hid, hall g' hg']
        rfl
      have hdg₀ := Table.eq_of_key hd.mem hg₀.mem hid₀
      have hold₀ := dormantGuardian_voidAccount.mp (hma'.dormantGuardian.mpr hg₀)
      have hgg₀ := queuesBefore_antisymm hg.mem hold₀.1.mem (hfirst g₀ hold₀.1 hold₀.2)
        (hfirst₀ g (hma'.dormantGuardian.mp hgmid))
      rw [hgg₀, ← hdg₀]
      exact (heir_ban_iff.mp hheir).2
    · cases hr with
      | hosted p hp => exact absurd (hu.mp h) Bool.false_ne_true
      | dropped hno' hq => exact absurd hga (hq g)
      | promoted g' hno' hg' hfirst' => exact absurd (hu.mp h) Bool.false_ne_true

theorem succeeded_of_orderly {cid : Cid} (hno : ∀ p, ActivePin db cid p → p.uploader = account)
    (h : BanOrderly db account cid) :
    Inherited db (banTransaction db t account reason policy admin).2 cid ∨
      cid ∈ (banTransaction db t account reason policy admin).1.cidsToUnpin := by
  have hmid : ∀ p, ¬ ActivePin (voidAccount db t account reason policy admin) cid p := by
    intro p hp
    obtain ⟨hold, hne⟩ := activePin_voidAccount.mp hp
    exact hne (hno p hold)
  cases share_ban db t account reason policy admin cid with
  | skipped hn hsame hu => exact absurd (mem_reconciledCids.mpr h.claimed) hn
  | stepped a b r hm ha hnext hr hb hu =>
    cases hr with
    | hosted p hp => exact absurd (ha.activePin.mpr hp) (hmid p)
    | dropped hno' hq => exact Or.inr (hu.mpr rfl)
    | promoted g hno' hg hfirst =>
      left
      have hgmid := ha.dormantGuardian.mpr hg
      obtain ⟨hgdb, hne⟩ := dormantGuardian_voidAccount.mp hgmid
      have hahead : ∀ e, DormantGuardian db cid e → e.owner ≠ account → QueuesBefore g e :=
        fun e he hene => hfirst e (ha.dormantGuardian.mp (dormantGuardian_voidAccount.mpr
          ⟨he, hene⟩))
      refine ⟨g, heir_ban_iff.mpr ⟨hgmid, h.next g hgdb hne hahead⟩, ?_, ?_⟩
      · intro e he
        exact hfirst e (ha.dormantGuardian.mp (heir_ban_iff.mp he).1)
      · refine ⟨promotedClaim a t g g, ⟨?_, hg.cid_eq, rfl, g, hgdb.mem, rfl, hg.dormant⟩, rfl⟩
        exact (hb.claims (promotedClaim a t g g) hg.cid_eq).mp (promoted_mem hg)

/-- On a CID without a host left, the ban obeys the law exactly if it is orderly there. -/
theorem succeeded_ban_iff {cid : Cid} (hno : ∀ p, ActivePin db cid p → p.uploader = account) :
    (Inherited db (banTransaction db t account reason policy admin).2 cid ∨
        cid ∈ (banTransaction db t account reason policy admin).1.cidsToUnpin) ↔
      BanOrderly db account cid :=
  ⟨orderly_of_succeeded, succeeded_of_orderly hno⟩

/-- A CID that the ban reports has no funder left. -/
theorem unpinned_ban {cid : Cid}
    (h : cid ∈ (banTransaction db t account reason policy admin).1.cidsToUnpin) :
    (∀ p, ¬ ActivePin (banTransaction db t account reason policy admin).2 cid p) ∧
      ∀ g, ¬ DormantGuardian (banTransaction db t account reason policy admin).2 cid g := by
  cases share_ban db t account reason policy admin cid with
  | skipped hn hsame hu => exact absurd h hu
  | stepped a b r hm ha hnext hr hb hu =>
    cases hr with
    | hosted p hp => exact absurd (hu.mp h) Bool.false_ne_true
    | dropped hno hq =>
      exact ⟨fun p hp => hno p (hb.activePin.mpr hp),
        fun g hg => hq g (hb.dormantGuardian.mpr hg)⟩
    | promoted g hno hg hfirst => exact absurd (hu.mp h) Bool.false_ne_true

theorem ban_obeyed_iff :
    BatonObeyed db (banTransaction db t account reason policy admin).2
        (banTransaction db t account reason policy admin).1.cidsToUnpin ↔
      ∀ cid, (∃ p, ActivePin db cid p) → (∀ p, ActivePin db cid p → p.uploader = account) →
        BanOrderly db account cid := by
  constructor
  · intro h cid hosted hmine
    exact (succeeded_ban_iff hmine).mp (h.succeeded cid (lastEnded_ban_iff.mpr ⟨hosted, hmine⟩))
  · intro h
    refine ⟨fun cid hlast => ?_, fun cid => unpinned_ban⟩
    obtain ⟨hosted, hmine⟩ := lastEnded_ban_iff.mp hlast
    exact (succeeded_ban_iff hmine).mpr (h cid hosted hmine)

end Ban

/-- From every database, a call that goes by uploader obeys the baton-pass law exactly if the
database is orderly for it. -/
theorem uploader_baton_iff (cfg : Config) (db : Db) (t : Int) (call : UploaderCall) {after : Db}
    {unpins : List Cid} (hrun : call.run cfg db t = .ok (unpins, after)) :
    BatonObeyed db after unpins ↔ call.Orderly cfg db := by
  cases call with
  | removePinForUploader cid uploader =>
    cases hrun
    exact removePin_obeyed_iff
  | banAccount hiveAccount reason policy admin =>
    cases hban : Moderation.banAccount cfg db t hiveAccount reason policy admin with
    | error e => rw [UploaderCall.run, hban] at hrun; cases hrun
    | ok r =>
      obtain ⟨b, db'⟩ := r
      rw [UploaderCall.run, hban] at hrun
      cases hrun
      obtain ⟨p, _, heq⟩ := banAccount_result hban
      have h : BatonObeyed db
          (banTransaction db t (cfg.toLowerCase hiveAccount) reason p admin).2
          (banTransaction db t (cfg.toLowerCase hiveAccount) reason p admin).1.cidsToUnpin ↔ _ :=
        ban_obeyed_iff
      rw [heq] at h
      exact h

/-- The pin of an upload from before claims. -/
def legacyPin (uploader : Account) : NewPin :=
  { cid := "bafy", uploader, sizeBytes := 100, paymentId := 1, expiresAt := 7200000,
    mode := .public, mime := none }

/-- Alice's pin is older than claims, and Bob has pledged to guard it. -/
def legacyDb : Db :=
  (createOrderWithClaim (createPin Db.empty 0 (legacyPin "alice")).2 5
    { cid := "bafy", owner := "bob", pinId := none, paymentId := 2, sizeBytes := 100,
      sizeMB := 1, rateLocked := 1, paidHours := 3, copies := 1, amountPaid := 3,
      currency := "SWAP.HIVE", startTs := 5, expiryTs := 5, kind := .guardian,
      state := .dormant, releasePolicy := none, receiptHash := none }).2

/-- Carol has such a pin too. -/
def sharedLegacyDb : Db := (createPin legacyDb 6 (legacyPin "carol")).2

theorem uploader_baton_shared :
    BatonObeyed sharedLegacyDb (removePinForUploader sharedLegacyDb 10 "bafy" "alice").2 [] :=
  (uploader_baton_iff Sample.config sharedLegacyDb 10 (.removePinForUploader "bafy" "alice")
    (by rfl)).mpr (Or.inl ⟨(legacyPin "carol").row 6 2, ⟨mem_insertPin.mpr (Or.inr rfl), rfl, rfl⟩,
      by decide⟩)

/-- Alice's delete reports the file while Bob still waits; her ban neither promotes him nor
reports it. -/
theorem legacy_guardian_passed_over :
    ¬ BatonObeyed legacyDb (removePinForUploader legacyDb 10 "bafy" "alice").2 ["bafy"] ∧
      ¬ BatonObeyed legacyDb (banTransaction legacyDb 10 "alice" "abuse" .prorata "operator").2
        (banTransaction legacyDb 10 "alice" "abuse" .prorata "operator").1.cidsToUnpin := by
  constructor
  · intro h
    have hdelete := removePin_obeyed_iff.mp h
    rcases hdelete with ⟨p, hp, hne⟩ | hnone
    · exact absurd hne ((by decide : ∀ q ∈ legacyDb.pins, ¬ q.uploader ≠ "alice") p hp.mem)
    · obtain ⟨g, hg, hq⟩ : ∃ g ∈ legacyDb.claims,
          g.cid = "bafy" ∧ g.state = .dormant ∧ g.kind = .guardian := by decide
      exact hnone g ⟨hg, hq.1, hq.2.1, hq.2.2⟩
  · intro h
    have hban := ban_obeyed_iff.mp h "bafy"
      ⟨(legacyPin "alice").row 0 1, mem_insertPin.mpr (Or.inr rfl), rfl, rfl⟩
      (fun p hp => (by decide : ∀ q ∈ legacyDb.pins, q.uploader = "alice") p hp.mem)
    obtain ⟨c, hc, _, hown, _⟩ := hban.claimed
    exact absurd hown ((by decide : ∀ d ∈ legacyDb.claims, d.owner ≠ "alice") c hc)

end IpfsGate.Server
