import Mathlib.Data.List.Induction

/-!
# Latches

A latch keeps the first message it is offered. A provisional message gives way to the first
definitive one offered later, once and for all. What a latch makes known therefore depends on
which messages it is offered and hardly on their order.
-/
namespace IpfsGate.Lib

/-- Which messages leave the matter open and which close it. -/
structure Latch (μ : Type) where
  provisional : μ → Bool
  definitive : μ → Bool
  exclusive : ∀ m, definitive m = true → provisional m = false

namespace Latch

/-- What a latch has come to hold: the first message, and the one it keeps. -/
structure Held (μ : Type) where
  first : μ
  kept : μ

variable {μ γ : Type} (L : Latch μ)

/-- The message takes the place of the one that is kept. -/
def replaces (h : Held μ) (m : μ) : Bool := L.provisional h.kept && L.definitive m

def offer : Option (Held μ) → μ → Option (Held μ)
  | none, m => some { first := m, kept := m }
  | some h, m => if L.replaces h m then some { h with kept := m } else some h

def offerAll (ms : List μ) : Option (Held μ) := ms.foldl L.offer none

/-- The message closes the matter or leaves it open; there may be messages of a third kind. -/
def Known (m : μ) : Prop := L.provisional m = true ∨ L.definitive m = true

/-- What is held, in terms of the messages that were offered. -/
structure Reads (ms : List μ) (h : Held μ) : Prop where
  first : ms.head? = some h.first
  kept : h.kept ∈ ms
  settled : L.Known h.first → L.definitive h.kept = true ∨
    L.provisional h.kept = true ∧ ∀ m ∈ ms, L.definitive m = false

@[simp] theorem offerAll_concat (ms : List μ) (m : μ) :
    L.offerAll (ms ++ [m]) = L.offer (L.offerAll ms) m := by
  unfold offerAll
  rw [List.foldl_append]
  rfl

variable {L} {ms ms' : List μ} {h h' : Held μ} {m : μ}

/-- A definitive message is never replaced. -/
theorem replaces_of_definitive (hd : L.definitive h.kept = true) : L.replaces h m = false := by
  rw [replaces, L.exclusive _ hd, Bool.false_and]

theorem reads_first (m : μ) : L.Reads [m] { first := m, kept := m } where
  first := rfl
  kept := List.mem_singleton_self m
  settled := by
    rintro (hp | hd)
    · refine Or.inr ⟨hp, fun x hx => ?_⟩
      rw [List.mem_singleton.mp hx]
      by_contra hd
      rw [L.exclusive m (Bool.not_eq_false _ ▸ hd)] at hp
      cases hp
    · exact Or.inl hd

theorem Reads.offer (h : L.Reads ms h') : ∃ h, L.offer (some h') m = some h ∧
    L.Reads (ms ++ [m]) h := by
  have hfirst : (ms ++ [m]).head? = some h'.first := by
    rw [List.head?_append, h.first]
    rfl
  by_cases hr : L.replaces h' m = true
  · refine ⟨_, if_pos hr, hfirst, List.mem_append_right _ (List.mem_singleton_self m), ?_⟩
    exact fun _ => Or.inl (Bool.and_eq_true_iff.mp hr).2
  · refine ⟨_, if_neg hr, hfirst, List.mem_append_left _ h.kept, fun hknown => ?_⟩
    refine (h.settled hknown).imp_right (fun ⟨hp, hno⟩ => ⟨hp, fun x hx => ?_⟩)
    rcases List.mem_append.mp hx with hx | hx
    · exact hno x hx
    · rw [List.mem_singleton.mp hx]
      rwa [replaces, hp, Bool.true_and, Bool.not_eq_true] at hr

/-- After the first message a latch holds something, and it is what its messages say. -/
theorem offerAll_reads (hms : ms ≠ []) : ∃ h, L.offerAll ms = some h ∧ L.Reads ms h := by
  induction ms using List.reverseRecOn with
  | nil => exact absurd rfl hms
  | append_singleton ms m ih =>
    rw [offerAll_concat]
    by_cases hnil : ms = []
    · rw [hnil]
      exact ⟨_, rfl, reads_first m⟩
    · obtain ⟨h, hold, hreads⟩ := ih hnil
      rw [hold]
      exact hreads.offer

/-- What definitive messages make known does not depend on the order in which messages are
offered, provided they agree on it and the latch opens on a message of a known kind. -/
theorem known_eq {out : μ → Option γ} (hout : ∀ m, L.definitive m = false → out m = none)
    (hsame : ∀ m, m ∈ ms ↔ m ∈ ms') (hms : ∀ m, ms.head? = some m → L.Known m)
    (hms' : ∀ m, ms'.head? = some m → L.Known m)
    (hagree : ∀ m ∈ ms, ∀ m' ∈ ms, L.definitive m = true → L.definitive m' = true →
      out m = out m') :
    (L.offerAll ms).bind (fun h => out h.kept) = (L.offerAll ms').bind (fun h => out h.kept) := by
  by_cases hnil : ms = []
  · have hnil' : ms' = [] := by
      refine List.eq_nil_iff_forall_not_mem.mpr (fun m hm => ?_)
      rw [← hsame, hnil] at hm
      exact List.not_mem_nil hm
    rw [hnil, hnil']
  have hnil' : ms' ≠ [] := by
    obtain ⟨m, hm⟩ := List.exists_mem_of_ne_nil ms hnil
    exact List.ne_nil_of_mem ((hsame m).mp hm)
  obtain ⟨h, hh, hreads⟩ := offerAll_reads (L := L) hnil
  obtain ⟨h', hh', hreads'⟩ := offerAll_reads (L := L) hnil'
  rw [hh, hh', Option.bind_some, Option.bind_some]
  have hkept' := (hsame h'.kept).mpr hreads'.kept
  rcases hreads.settled (hms _ hreads.first) with hd | ⟨_, hno⟩
  · rcases hreads'.settled (hms' _ hreads'.first) with hd' | ⟨_, hno'⟩
    · exact hagree _ hreads.kept _ hkept' hd hd'
    · rw [hno' _ ((hsame _).mp hreads.kept)] at hd
      cases hd
  · rw [hout _ (hno _ hreads.kept), hout _ (hno _ hkept')]

end Latch

end IpfsGate.Lib
