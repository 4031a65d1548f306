import IpfsGate.Lib.Separated
import IpfsGate.Lib.Utf16
import Mathlib.Data.List.Perm.Basic

/-!
# What the envelope signature covers

The signature input puts the fields of an envelope behind one another with bars, and the
recipients, lower-cased and sorted, with commas. Nothing is escaped, so fields can be told apart
only while the separators stay out of them; one field, the room, may hold anything.
-/
namespace IpfsGate.EnvelopeSig

open Lib.Separated
open Lib.Utf16 (joined_no_bar perm_of_joined sort sort_eq_iff)

/-- An envelope's signed fields; of `per_recipient` only the keys are signed. -/
structure Envelope where
  cid : String
  sizeBytes : Nat
  sender : String
  createdAt : String
  expiresAt : String
  room : String
  kindHint : String
  perRecipient : List String

section Input

variable (lower : String → String)

def recipients (e : Envelope) : List String := sort (e.perRecipient.map lower)

def buildEnvelopeSigInput (e : Envelope) : String :=
  let joined := ",".intercalate (recipients lower e)
  s!"{e.cid}|{e.sizeBytes}|{e.sender}|{e.createdAt}|{e.expiresAt}|{e.room}|{e.kindHint}|{joined}"

/-- The envelopes say the same, up to the letter case of their recipients. -/
structure Agree (e e' : Envelope) : Prop where
  cid : e.cid = e'.cid
  sizeBytes : e.sizeBytes = e'.sizeBytes
  sender : e.sender = e'.sender
  createdAt : e.createdAt = e'.createdAt
  expiresAt : e.expiresAt = e'.expiresAt
  room : e.room = e'.room
  kindHint : e.kindHint = e'.kindHint
  recipients : ∀ a, a ∈ e.perRecipient.map lower ↔ a ∈ e'.perRecipient.map lower

/-- The separators stay out of the fields around the room. -/
structure Plain (e : Envelope) : Prop where
  cid : '|' ∉ e.cid.toList
  sender : '|' ∉ e.sender.toList
  createdAt : '|' ∉ e.createdAt.toList
  expiresAt : '|' ∉ e.expiresAt.toList
  kindHint : '|' ∉ e.kindHint.toList
  names : ∀ a ∈ e.perRecipient.map lower, Lib.Utf16.Plain a

/-- No recipient is listed twice. -/
def Distinct (e : Envelope) : Prop := (e.perRecipient.map lower).Nodup

end Input

section Canonical

variable {lower : String → String} {e e' : Envelope}

theorem sigInput_framed (lower : String → String) (e : Envelope) :
    (buildEnvelopeSigInput lower e).toList =
      framed '|' [e.cid.toList, e.sizeBytes.repr.toList, e.sender.toList, e.createdAt.toList,
        e.expiresAt.toList] e.room.toList
        [e.kindHint.toList, (",".intercalate (recipients lower e)).toList] := by
  have hsize : toString e.sizeBytes = e.sizeBytes.repr := rfl
  simp [buildEnvelopeSigInput, framed, toString_string, hsize]

theorem repr_no_bar (n : Nat) : '|' ∉ n.repr.toList := by
  rw [Nat.toList_repr]
  intro h
  exact absurd (Nat.isDigit_of_mem_toDigits (by decide) (by decide) h) (by decide)

theorem Plain.before (h : Plain lower e) : ∀ x ∈ [e.cid.toList, e.sizeBytes.repr.toList,
    e.sender.toList, e.createdAt.toList, e.expiresAt.toList], '|' ∉ x := by
  intro x hx
  simp only [List.mem_cons, List.not_mem_nil, or_false] at hx
  rcases hx with rfl | rfl | rfl | rfl | rfl
  · exact h.cid
  · exact repr_no_bar _
  · exact h.sender
  · exact h.createdAt
  · exact h.expiresAt

theorem Plain.after (h : Plain lower e) : ∀ x ∈ [e.kindHint.toList,
    (",".intercalate (recipients lower e)).toList], '|' ∉ x := by
  intro x hx
  simp only [List.mem_cons, List.not_mem_nil, or_false] at hx
  rcases hx with rfl | rfl
  · exact h.kindHint
  · exact joined_no_bar h.names

theorem agree_of_sigInput (h : Plain lower e) (h' : Plain lower e')
    (heq : buildEnvelopeSigInput lower e = buildEnvelopeSigInput lower e') : Agree lower e e' := by
  have hframed := congrArg String.toList heq
  rw [sigInput_framed, sigInput_framed] at hframed
  obtain ⟨hhead, hroom, htail⟩ := framed_inj (by rfl) (by rfl) hframed h.before h'.before h.after
    h'.after
  simp only [List.cons.injEq, and_true, String.toList_inj] at hhead htail
  obtain ⟨hcid, hsize, hsender, hcreated, hexpires⟩ := hhead
  refine ⟨hcid, repr_inj hsize, hsender, hcreated, hexpires, String.toList_inj.mp hroom,
    htail.1, ?_⟩
  intro a
  exact (perm_of_joined h.names h'.names (congrArg String.toList htail.2)).mem_iff

theorem sigInput_of_agree (h : Distinct lower e) (h' : Distinct lower e') (ha : Agree lower e e') :
    buildEnvelopeSigInput lower e = buildEnvelopeSigInput lower e' := by
  have hperm : (e.perRecipient.map lower).Perm (e'.perRecipient.map lower) :=
    (List.perm_ext_iff_of_nodup h h').mpr ha.recipients
  have hsorted : recipients lower e = recipients lower e' := sort_eq_iff.mpr hperm
  unfold buildEnvelopeSigInput
  rw [hsorted, ha.cid, ha.sizeBytes, ha.sender, ha.createdAt, ha.expiresAt, ha.room, ha.kindHint]

end Canonical

/-- The order of the keys never matters, envelopes that agree and list nobody twice have the same
signature input, and those with the same one agree if their fields can be told apart. -/
theorem sigInput_canonical (lower : String → String) :
    (∀ (e : Envelope) (keys : List String), keys.Perm e.perRecipient →
      buildEnvelopeSigInput lower { e with perRecipient := keys } =
        buildEnvelopeSigInput lower e) ∧
      ∀ e e' : Envelope,
        (Distinct lower e → Distinct lower e' → Agree lower e e' →
          buildEnvelopeSigInput lower e = buildEnvelopeSigInput lower e') ∧
        (Plain lower e → Plain lower e' →
          buildEnvelopeSigInput lower e = buildEnvelopeSigInput lower e' → Agree lower e e') := by
  constructor
  · intro e keys hperm
    have hsorted : sort (keys.map lower) = sort (e.perRecipient.map lower) :=
      sort_eq_iff.mpr (hperm.map lower)
    unfold buildEnvelopeSigInput recipients
    rw [hsorted]
  · intro e e'
    exact ⟨sigInput_of_agree, agree_of_sigInput⟩

section Sampled

/-- `toLowerCase` on a text without other capitals than `A` to `Z`. -/
def lowerCase (s : String) : String := String.ofList (s.toList.map Char.toLower)

/-- An envelope for Alice, as Bob sends it. -/
def fromBob (room kindHint : String) (perRecipient : List String) : Envelope :=
  { cid := "c", sizeBytes := 9, sender := "bob", createdAt := "1",
    expiresAt := "2", room, kindHint, perRecipient }

/-- The room may have bars; and where only the case differs, any field may have. -/
theorem sigInput_canonical_bars :
    Agree lowerCase (fromBob "a|b" "i" ["Alice", "carol"])
      (fromBob "a|b" "i" ["carol", "alice"]) ∧
    buildEnvelopeSigInput lowerCase (fromBob "r" "i|j" ["Alice|Carol"]) =
      buildEnvelopeSigInput lowerCase (fromBob "r" "i|j" ["alice|carol"]) := by
  constructor
  · refine ((sigInput_canonical lowerCase).2 (fromBob "a|b" "i" ["Alice", "carol"])
      (fromBob "a|b" "i" ["carol", "alice"])).2 ?_ ?_ (by decide +kernel)
    · exact ⟨by decide, by decide, by decide, by decide, by decide, by decide +kernel⟩
    · exact ⟨by decide, by decide, by decide, by decide, by decide, by decide +kernel⟩
  · refine ((sigInput_canonical lowerCase).2 (fromBob "r" "i|j" ["Alice|Carol"])
      (fromBob "r" "i|j" ["alice|carol"])).1 ?_ ?_ ⟨rfl, rfl, rfl, rfl, rfl, rfl, rfl, ?_⟩
    · exact List.nodup_singleton _
    · exact List.nodup_singleton _
    · have hname : ["Alice|Carol"].map lowerCase = ["alice|carol"].map lowerCase := by
        decide +kernel
      intro a
      show a ∈ ["Alice|Carol"].map lowerCase ↔ a ∈ ["alice|carol"].map lowerCase
      rw [hname]

/-- A bar moves text from the room to the hint of the kind, a comma makes two recipients of one,
and a recipient listed under two cases is written twice. -/
theorem sigInput_ambiguous :
    (buildEnvelopeSigInput lowerCase (fromBob "r|i" "j" ["alice"]) =
        buildEnvelopeSigInput lowerCase (fromBob "r" "i|j" ["alice"]) ∧
      ¬ Agree lowerCase (fromBob "r|i" "j" ["alice"])
        (fromBob "r" "i|j" ["alice"])) ∧
    (buildEnvelopeSigInput lowerCase (fromBob "r" "i" ["alice,carol"]) =
        buildEnvelopeSigInput lowerCase (fromBob "r" "i" ["alice", "carol"]) ∧
      ¬ Agree lowerCase (fromBob "r" "i" ["alice,carol"])
        (fromBob "r" "i" ["alice", "carol"])) ∧
    Agree lowerCase (fromBob "r" "i" ["alice", "Alice"])
        (fromBob "r" "i" ["alice"]) ∧
      buildEnvelopeSigInput lowerCase (fromBob "r" "i" ["alice", "Alice"]) ≠
        buildEnvelopeSigInput lowerCase (fromBob "r" "i" ["alice"]) := by
  refine ⟨⟨by decide +kernel, ?_⟩, ⟨by decide +kernel, ?_⟩, ?_, by decide +kernel⟩
  · intro h
    exact absurd h.room (by decide)
  · intro h
    exact absurd ((h.recipients "alice").mpr (by decide +kernel)) (by decide +kernel)
  · refine ⟨rfl, rfl, rfl, rfl, rfl, rfl, rfl, ?_⟩
    have hnames : ["alice", "Alice"].map lowerCase = ["alice", "alice"] := by decide +kernel
    have hname : ["alice"].map lowerCase = ["alice"] := by decide +kernel
    intro a
    show a ∈ ["alice", "Alice"].map lowerCase ↔ a ∈ ["alice"].map lowerCase
    rw [hnames, hname]
    simp

end Sampled

end IpfsGate.EnvelopeSig
