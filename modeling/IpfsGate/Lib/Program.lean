import Mathlib.Data.Multiset.MapFold

/-!
# Cooperative programs

A machine runs statements, which take effect at once, and makes calls, which suspend the
program until they are answered. Between two calls a program runs without interruption; that
stretch is a turn. A pool holds the suspended processes of a machine and lets any of them
take the next turn.
-/
namespace IpfsGate.Lib

structure Machine where
  World : Type
  Fault : Type
  Stmt : Type
  Out : Stmt → Type
  sem : (s : Stmt) → World → Out s × World
  Call : Type
  Reply : Call → Type
  /-- What can happen to the world between two turns. -/
  Drift : Type
  drift : Drift → World → World

inductive Prog (M : Machine) (α : Type) : Type where
  | ret (a : α)
  | fail (e : M.Fault)
  | read (k : M.World → Prog M α)
  | exec (s : M.Stmt) (k : M.Out s → Prog M α)
  | await (c : M.Call) (k : M.Reply c → Prog M α)

namespace Prog

variable {M : Machine} {α β : Type}

/-- Continue with the outcome of a program, a value or a fault. -/
def andThen : Prog M α → (Except M.Fault α → Prog M β) → Prog M β
  | ret a, f => f (.ok a)
  | fail e, f => f (.error e)
  | read k, f => read (fun w => (k w).andThen f)
  | exec s k, f => exec s (fun o => (k o).andThen f)
  | await c k, f => await c (fun r => (k r).andThen f)

/-- Lift an outcome that is already known. -/
def liftExcept : Except M.Fault α → Prog M α
  | .ok a => ret a
  | .error e => fail e

def bind (p : Prog M α) (f : α → Prog M β) : Prog M β :=
  p.andThen (fun r => match r with
    | .ok a => f a
    | .error e => fail e)

instance : Monad (Prog M) where
  pure := ret
  bind := bind

/-- Run a program and hand its outcome on as a value. -/
def attempt (p : Prog M α) : Prog M (Except M.Fault α) := p.andThen ret

def query (f : M.World → α) : Prog M α := read (fun w => ret (f w))

def tx (s : M.Stmt) : Prog M (M.Out s) := exec s ret

def call (c : M.Call) : Prog M (M.Reply c) := await c ret

/-- Fail unless the condition holds. -/
def require (b : Bool) (e : M.Fault) : Prog M Unit := if b then ret () else fail e

/-- Thread a value through a list, one element after the other. -/
def fold (f : β → α → Prog M β) : List α → β → Prog M β
  | [], b => ret b
  | a :: rest, b => (f b a).bind (fold f rest)

@[simp] theorem pure_eq (a : α) : (pure a : Prog M α) = ret a := rfl

@[simp] theorem bind_eq (p : Prog M α) (f : α → Prog M β) : (p >>= f) = p.bind f := rfl

@[simp] theorem andThen_ret (a : α) (f : Except M.Fault α → Prog M β) :
    (ret a : Prog M α).andThen f = f (.ok a) := rfl

@[simp] theorem andThen_fail (e : M.Fault) (f : Except M.Fault α → Prog M β) :
    (fail e : Prog M α).andThen f = f (.error e) := rfl

@[simp] theorem ret_bind (a : α) (f : α → Prog M β) : (ret a).bind f = f a := rfl

@[simp] theorem fail_bind (e : M.Fault) (f : α → Prog M β) :
    (fail e : Prog M α).bind f = fail e := rfl

@[simp] theorem query_bind (f : M.World → α) (g : α → Prog M β) :
    (query f).bind g = read (fun w => g (f w)) := rfl

@[simp] theorem tx_bind (s : M.Stmt) (g : M.Out s → Prog M β) : (tx s).bind g = exec s g := rfl

@[simp] theorem call_bind (c : M.Call) (g : M.Reply c → Prog M β) :
    (call c).bind g = await c g := rfl

@[simp] theorem fold_nil (f : β → α → Prog M β) (b : β) : fold f [] b = ret b := rfl

theorem fold_cons (f : β → α → Prog M β) (a : α) (rest : List α) (b : β) :
    fold f (a :: rest) b = (f b a).bind (fold f rest) := rfl

/-- The statements a process ran, each with the world it ran in. -/
abbrev Trace (M : Machine) := List (M.Stmt × M.World)

/-- How a turn ends. -/
inductive Stop (M : Machine) (α : Type) : Type where
  | finished (r : Except M.Fault α)
  | suspended (c : M.Call) (k : M.Reply c → Prog M α)

/-- Run to the end of the turn. -/
def turn : Prog M α → Trace M → M.World → Stop M α × Trace M × M.World
  | ret a, past, w => (.finished (.ok a), past, w)
  | fail e, past, w => (.finished (.error e), past, w)
  | read k, past, w => (k w).turn past w
  | exec s k, past, w => (k (M.sem s w).1).turn (past ++ [(s, w)]) (M.sem s w).2
  | await c k, past, w => (.suspended c k, past, w)

/-- Every statement of the turn runs in a world that meets the condition. -/
def Meets (P : M.Stmt → M.World → Prop) : Prog M α → M.World → Prop
  | ret _, _ => True
  | fail _, _ => True
  | read k, w => (k w).Meets P w
  | exec s k, w => P s w ∧ (k (M.sem s w).1).Meets P (M.sem s w).2
  | await _ _, _ => True

theorem Meets.mono {P Q : M.Stmt → M.World → Prop} (hPQ : ∀ s w, P s w → Q s w)
    {p : Prog M α} {w : M.World} (h : p.Meets P w) : p.Meets Q w := by
  induction p generalizing w with
  | ret a => trivial
  | fail e => trivial
  | read k ih => exact ih w h
  | exec s k ih => exact ⟨hPQ s w h.1, ih _ h.2⟩
  | await c k ih => trivial

theorem meets_true (p : Prog M α) (w : M.World) : p.Meets (fun _ _ => True) w := by
  induction p generalizing w with
  | ret a => trivial
  | fail e => trivial
  | read k ih => exact ih w w
  | exec s k ih => exact ⟨trivial, ih _ _⟩
  | await c k ih => trivial

instance decidableMeets (P : M.Stmt → M.World → Prop) [∀ s w, Decidable (P s w)] :
    (p : Prog M α) → (w : M.World) → Decidable (p.Meets P w)
  | ret _, _ => isTrue trivial
  | fail _, _ => isTrue trivial
  | read k, w => decidableMeets P (k w) w
  | exec s k, w =>
    @instDecidableAnd _ _ _ (decidableMeets P (k (M.sem s w).1) (M.sem s w).2)
  | await _ _, _ => isTrue trivial

/-- Whatever is answered, the program makes at most so many calls before it ends. -/
def Awaits : Prog M α → Nat → Prop
  | ret _, _ => True
  | fail _, _ => True
  | read k, n => ∀ w, (k w).Awaits n
  | exec _ k, n => ∀ o, (k o).Awaits n
  | await _ _, 0 => False
  | await _ k, n + 1 => ∀ r, (k r).Awaits n

theorem Awaits.mono {p : Prog M α} {m n : Nat} (h : p.Awaits m) (hmn : m ≤ n) : p.Awaits n := by
  induction p generalizing m n with
  | ret a => trivial
  | fail e => trivial
  | read k ih => exact fun w => ih w (h w) hmn
  | exec s k ih => exact fun o => ih o (h o) hmn
  | await c k ih =>
    cases m with
    | zero => exact h.elim
    | succ m =>
      obtain ⟨n, rfl⟩ : ∃ n', n = n' + 1 := ⟨n - 1, by omega⟩
      exact fun r => ih r (h r) (by omega)

theorem awaits_bind {p : Prog M α} {f : α → Prog M β} {m n : Nat} (hp : p.Awaits m)
    (hf : ∀ a, (f a).Awaits n) : (p.bind f).Awaits (m + n) := by
  induction p generalizing m with
  | ret a => exact (hf a).mono (Nat.le_add_left n m)
  | fail e => trivial
  | read k ih => exact fun w => ih w (hp w)
  | exec s k ih => exact fun o => ih o (hp o)
  | await c k ih =>
    cases m with
    | zero => exact hp.elim
    | succ m =>
      rw [Nat.succ_add]
      exact fun r => ih r (hp r)

theorem awaits_fold {f : β → α → Prog M β} {n : Nat} (hf : ∀ b a, (f b a).Awaits n)
    (l : List α) (b : β) : (fold f l b).Awaits (n * l.length) := by
  induction l generalizing b with
  | nil => trivial
  | cons a rest ih =>
    rw [fold_cons, List.length_cons, Nat.mul_succ, Nat.add_comm]
    exact awaits_bind (hf b a) ih

end Prog

open Prog (Trace)

/-- A suspended process: the request it serves, the call it waits for and what it has done. -/
structure Process (M : Machine) (Q B : Type) where
  request : Q
  call : M.Call
  past : Trace M
  resume : M.Reply call → Prog M B

structure Finished (M : Machine) (Q B : Type) where
  request : Q
  past : Trace M
  result : Except M.Fault B
  final : M.World

structure Pool (M : Machine) (Q B : Type) where
  world : M.World
  parked : List (Process M Q B)
  finished : List (Finished M Q B)

/-- A request arrives, the world answers a call, or the world drifts. An answer is given for
every call; the one the process waits for is used. -/
inductive Event (M : Machine) (Q : Type) where
  | spawn (q : Q)
  | resume (i : Nat) (answer : (c : M.Call) → M.Reply c)
  | drift (d : M.Drift)

namespace Pool

variable {M : Machine} {Q B : Type}

def start (w : M.World) : Pool M Q B := { world := w, parked := [], finished := [] }

def calls (parked : List (Process M Q B)) : Multiset M.Call := parked.map Process.call

/-- One turn of a process next to the processes that stay parked. -/
def advance (S : Pool M Q B) (rest : List (Process M Q B)) (q : Q) (past : Trace M)
    (p : Prog M B) : Pool M Q B :=
  match p.turn past S.world with
  | (.finished r, past', w) =>
    { world := w, parked := rest,
      finished := S.finished ++ [{ request := q, past := past', result := r, final := w }] }
  | (.suspended c k, past', w) =>
    { world := w, finished := S.finished,
      parked := rest ++ [{ request := q, call := c, past := past', resume := k }] }

/-- An answer to a process that is not there changes nothing. -/
def step (handler : Q → Prog M B) (S : Pool M Q B) : Event M Q → Pool M Q B
  | .spawn q => S.advance S.parked q [] (handler q)
  | .resume i answer =>
    match S.parked[i]? with
    | none => S
    | some p => S.advance (S.parked.eraseIdx i) p.request p.past (p.resume (answer p.call))
  | .drift d => { S with world := M.drift d S.world }

def run (handler : Q → Prog M B) (S : Pool M Q B) (events : List (Event M Q)) : Pool M Q B :=
  events.foldl (step handler) S

/-- What a condition on arriving requests, and one on the statements run next to the calls the
other processes wait for, ask of an event. -/
def Admits (handler : Q → Prog M B) (Arrives : Q → M.World → Prop)
    (Runs : Multiset M.Call → M.Stmt → M.World → Prop) (S : Pool M Q B) : Event M Q → Prop
  | .spawn q => Arrives q S.world ∧ (handler q).Meets (Runs (calls S.parked)) S.world
  | .resume i answer => ∀ p, S.parked[i]? = some p →
    (p.resume (answer p.call)).Meets (Runs (calls (S.parked.eraseIdx i))) S.world
  | .drift _ => True

/-- Every event of the run meets the conditions in the state it happens in. -/
def Admissible (handler : Q → Prog M B) (Arrives : Q → M.World → Prop)
    (Runs : Multiset M.Call → M.Stmt → M.World → Prop) : Pool M Q B → List (Event M Q) → Prop
  | _, [] => True
  | S, e :: rest =>
    Admits handler Arrives Runs S e ∧ Admissible handler Arrives Runs (step handler S e) rest

/-- Without conditions every run is admissible. -/
theorem admissible_true (handler : Q → Prog M B) (S : Pool M Q B) (events : List (Event M Q)) :
    Admissible handler (fun _ _ => True) (fun _ _ _ => True) S events := by
  induction events generalizing S with
  | nil => trivial
  | cons e rest ih =>
    refine ⟨?_, ih _⟩
    cases e with
    | spawn q => exact ⟨trivial, Prog.meets_true _ _⟩
    | resume i answer => exact fun p _ => Prog.meets_true _ _
    | drift d => trivial

section Decide

variable {handler : Q → Prog M B} {Arrives : Q → M.World → Prop}
  {Runs : Multiset M.Call → M.Stmt → M.World → Prop} [∀ q w, Decidable (Arrives q w)]
  [∀ calls s w, Decidable (Runs calls s w)]

instance (S : Pool M Q B) : (e : Event M Q) → Decidable (Admits handler Arrives Runs S e)
  | .spawn q => inferInstanceAs (Decidable (Arrives q S.world ∧ (handler q).Meets _ S.world))
  | .resume i answer =>
    match h : S.parked[i]? with
    | none => isTrue (fun p hp => by rw [h] at hp; cases hp)
    | some p =>
      decidable_of_iff ((p.resume (answer p.call)).Meets (Runs (calls (S.parked.eraseIdx i)))
        S.world) ⟨fun hm q hq => by rw [h] at hq; cases hq; exact hm, fun hall => hall p h⟩
  | .drift _ => isTrue trivial

instance decidableAdmissible : (S : Pool M Q B) → (events : List (Event M Q)) →
    Decidable (Admissible handler Arrives Runs S events)
  | _, [] => isTrue trivial
  | S, e :: rest => @instDecidableAnd _ _ _ (decidableAdmissible (step handler S e) rest)

end Decide

end Pool

end IpfsGate.Lib
