import Mathlib.Logic.Basic

/-! Sequential programs over atomic commands, with exceptions, and the weakest
precondition of a program against a protocol. What a command does to a shared
state is left to the machine that runs the program. -/
namespace DocAuto.Process

/-- A command either answers or throws; the continuation receives both outcomes. -/
inductive Program (Cmd : Type) (Resp : Cmd → Type) (Err α : Type) where
  | ret (a : α)
  | throw (e : Err)
  | call (c : Cmd) (k : Except Err (Resp c) → Program Cmd Resp Err α)

namespace Program
variable {Cmd : Type} {Resp : Cmd → Type} {Err α β : Type}

def bind : Program Cmd Resp Err α → (α → Program Cmd Resp Err β) → Program Cmd Resp Err β
  | ret a, f => f a
  | throw e, _ => throw e
  | call c k, f => call c fun r => bind (k r) f

def tryCatch : Program Cmd Resp Err α → (Err → Program Cmd Resp Err α) → Program Cmd Resp Err α
  | ret a, _ => ret a
  | throw e, h => h e
  | call c k, h => call c fun r => tryCatch (k r) h

def ofExcept : Except Err α → Program Cmd Resp Err α
  | .ok a => ret a
  | .error e => throw e

/-- Issue one command and return its answer. -/
def perform (c : Cmd) : Program Cmd Resp Err (Resp c) := call c ofExcept

def void (p : Program Cmd Resp Err α) : Program Cmd Resp Err Unit := p.bind fun _ => ret ()

instance : Monad (Program Cmd Resp Err) where
  pure := ret
  bind := bind

instance : MonadExceptOf Err (Program Cmd Resp Err) where
  throw := throw
  tryCatch := tryCatch

theorem bind_eq (p : Program Cmd Resp Err α) (f : α → Program Cmd Resp Err β) : p >>= f = p.bind f := rfl

/-- Run a program alone, from `s`, when every command is answered by `answer`. -/
def exec {σ : Type} (answer : (c : Cmd) → σ → Except Err (Resp c) × σ) :
    Program Cmd Resp Err α → σ → Except Err α × σ
  | ret a, s => (.ok a, s)
  | throw e, s => (.error e, s)
  | call c k, s => exec answer (k (answer c s).1) (answer c s).2

section Exec
variable {σ : Type} (answer : (c : Cmd) → σ → Except Err (Resp c) × σ)

@[simp] theorem exec_ret (a : α) (s : σ) : exec answer (ret a : Program Cmd Resp Err α) s = (.ok a, s) := rfl

@[simp] theorem exec_throw (e : Err) (s : σ) :
    exec answer (throw e : Program Cmd Resp Err α) s = (.error e, s) := rfl

@[simp] theorem exec_pure (a : α) (s : σ) : exec answer (pure a : Program Cmd Resp Err α) s = (.ok a, s) := rfl

@[simp] theorem exec_throwThe (e : Err) (s : σ) :
    exec answer (MonadExcept.throw e : Program Cmd Resp Err α) s = (.error e, s) := rfl

@[simp] theorem exec_call (c : Cmd) (k : Except Err (Resp c) → Program Cmd Resp Err α) (s : σ) :
    exec answer (call c k) s = exec answer (k (answer c s).1) (answer c s).2 := rfl

theorem exec_bind (p : Program Cmd Resp Err α) (f : α → Program Cmd Resp Err β) (s : σ) :
    exec answer (p.bind f) s =
      match exec answer p s with
      | (.ok a, t) => exec answer (f a) t
      | (.error e, t) => (.error e, t) := by
  induction p generalizing s with
  | ret a => rfl
  | throw e => rfl
  | call c k ih => simp only [bind, exec_call, ih]

@[simp] theorem exec_perform (c : Cmd) (s : σ) :
    exec answer (perform c : Program Cmd Resp Err (Resp c)) s = answer c s := by
  rcases h : answer c s with ⟨e | a, t⟩ <;> simp [perform, h, ofExcept]

theorem exec_bind_of_ok {p : Program Cmd Resp Err α} {f : α → Program Cmd Resp Err β} {s t : σ} {a : α}
    (h : exec answer p s = (.ok a, t)) : exec answer (p >>= f) s = exec answer (f a) t := by
  rw [bind_eq, exec_bind, h]

theorem exec_bind_of_error {p : Program Cmd Resp Err α} {f : α → Program Cmd Resp Err β} {s t : σ} {e : Err}
    (h : exec answer p s = (.error e, t)) : exec answer (p >>= f) s = (.error e, t) := by
  rw [bind_eq, exec_bind, h]

theorem exec_bind_ret (p : Program Cmd Resp Err α) (b : β) (s : σ) :
    (exec answer (p >>= fun _ => ret b) s).2 = (exec answer p s).2 := by
  rw [bind_eq, exec_bind]
  rcases exec answer p s with ⟨e | a, t⟩ <;> rfl

theorem exec_tryCatch (p : Program Cmd Resp Err α) (h : Err → Program Cmd Resp Err α) (s : σ) :
    exec answer (tryCatch p h) s =
      match exec answer p s with
      | (.ok a, t) => (.ok a, t)
      | (.error e, t) => exec answer (h e) t := by
  induction p generalizing s with
  | ret a => rfl
  | throw e => rfl
  | call c k ih => simp only [tryCatch, exec_call, ih]

theorem exec_tryCatch_of_ok {p : Program Cmd Resp Err α} {h : Err → Program Cmd Resp Err α} {s t : σ} {a : α}
    (hp : exec answer p s = (.ok a, t)) : exec answer (MonadExcept.tryCatch p h) s = (.ok a, t) := by
  refine (exec_tryCatch answer p h s).trans ?_
  rw [hp]

theorem exec_tryCatch_of_error {p : Program Cmd Resp Err α} {h : Err → Program Cmd Resp Err α} {s t : σ} {e : Err}
    (hp : exec answer p s = (.error e, t)) : exec answer (MonadExcept.tryCatch p h) s = exec answer (h e) t := by
  refine (exec_tryCatch answer p h s).trans ?_
  rw [hp]

/-- A sequential composition that returned: both parts returned. -/
theorem exec_bind_ok {p : Program Cmd Resp Err α} {f : α → Program Cmd Resp Err β} {s t : σ} {b : β}
    (h : exec answer (p >>= f) s = (.ok b, t)) :
    ∃ a m, exec answer p s = (.ok a, m) ∧ exec answer (f a) m = (.ok b, t) := by
  rw [bind_eq, exec_bind] at h
  rcases hp : exec answer p s with ⟨e | a, m⟩
  · simp [hp] at h
  · exact ⟨a, m, rfl, by simpa [hp] using h⟩

/-- What every command preserves, every program preserves. -/
theorem exec_preserves {I : σ → Prop} (keep : ∀ c s, I s → I (answer c s).2)
    (p : Program Cmd Resp Err α) {s : σ} (hi : I s) : I (exec answer p s).2 := by
  induction p generalizing s with
  | ret a => exact hi
  | throw e => exact hi
  | call c k ih => exact ih _ (keep c s hi)

end Exec
end Program

/-- What a process may do: the commands it may issue in a phase, the answers that
can come back, and the phase it is in afterwards. -/
structure Protocol (Cmd : Type) (Resp : Cmd → Type) (Err : Type) where
  Phase : Type
  allowed : Phase → Cmd → Prop
  answers : Phase → (c : Cmd) → Except Err (Resp c) → Prop
  next : Phase → (c : Cmd) → Except Err (Resp c) → Phase

/-- One command together with the answer it received. -/
abbrev Event (Cmd : Type) (Resp : Cmd → Type) (Err : Type) := Σ c : Cmd, Except Err (Resp c)

namespace Protocol
variable {Cmd : Type} {Resp : Cmd → Type} {Err α β : Type} (P : Protocol Cmd Resp Err)

/-- The phase after a history of events, the newest first. -/
def after (start : P.Phase) : List (Event Cmd Resp Err) → P.Phase
  | [] => start
  | e :: es => P.next (after start es) e.1 e.2

/-- `p` keeps to the protocol from phase `ph` on, and `Q` holds of the phase and
the result with which it ends. -/
def wp (Q : P.Phase → Except Err α → Prop) : Program Cmd Resp Err α → P.Phase → Prop
  | .ret a, ph => Q ph (.ok a)
  | .throw e, ph => Q ph (.error e)
  | .call c k, ph => P.allowed ph c ∧ ∀ r, P.answers ph c r → wp Q (k r) (P.next ph c r)

variable {P} {Q Q' : P.Phase → Except Err α → Prop}

@[simp] theorem wp_ret (a : α) (ph : P.Phase) : P.wp Q (.ret a) ph ↔ Q ph (.ok a) := Iff.rfl

@[simp] theorem wp_pure (a : α) (ph : P.Phase) : P.wp Q (pure a) ph ↔ Q ph (.ok a) := Iff.rfl

@[simp] theorem wp_throw (e : Err) (ph : P.Phase) : P.wp Q (.throw e) ph ↔ Q ph (.error e) := Iff.rfl

@[simp] theorem wp_throwThe (e : Err) (ph : P.Phase) :
    P.wp Q (MonadExcept.throw e) ph ↔ Q ph (.error e) := Iff.rfl

theorem wp_call (c : Cmd) (k : Except Err (Resp c) → Program Cmd Resp Err α) (ph : P.Phase) :
    P.wp Q (.call c k) ph ↔ P.allowed ph c ∧ ∀ r, P.answers ph c r → P.wp Q (k r) (P.next ph c r) := Iff.rfl

@[simp] theorem wp_ofExcept (r : Except Err α) (ph : P.Phase) :
    P.wp Q (Program.ofExcept r) ph ↔ Q ph r := by
  cases r <;> rfl

@[simp] theorem wp_perform {c : Cmd} {Q : P.Phase → Except Err (Resp c) → Prop} (ph : P.Phase) :
    P.wp Q (.perform c) ph ↔ P.allowed ph c ∧ ∀ r, P.answers ph c r → Q (P.next ph c r) r := by
  simp [Program.perform, wp_call]

@[simp] theorem wp_bind {Q : P.Phase → Except Err β → Prop} (p : Program Cmd Resp Err α)
    (f : α → Program Cmd Resp Err β) (ph : P.Phase) :
    P.wp Q (p >>= f) ph ↔ P.wp (fun ph r => match r with
      | .ok a => P.wp Q (f a) ph
      | .error e => Q ph (.error e)) p ph := by
  induction p generalizing ph with
  | ret a => rfl
  | throw e => rfl
  | call c k ih => exact and_congr_right fun _ => forall_congr' fun r => imp_congr_right fun _ => ih r _

@[simp] theorem wp_tryCatch (p : Program Cmd Resp Err α) (h : Err → Program Cmd Resp Err α) (ph : P.Phase) :
    P.wp Q (tryCatch p h) ph ↔ P.wp (fun ph r => match r with
      | .ok a => Q ph (.ok a)
      | .error e => P.wp Q (h e) ph) p ph := by
  induction p generalizing ph with
  | ret a => rfl
  | throw e => rfl
  | call c k ih => exact and_congr_right fun _ => forall_congr' fun r => imp_congr_right fun _ => ih r _

/-- The rule for one command: the two outcomes are followed separately. -/
theorem wp_step {c : Cmd} {k : Except Err (Resp c) → Program Cmd Resp Err α} {ph : P.Phase} (ha : P.allowed ph c)
    (he : ∀ e, P.answers ph c (.error e) → P.wp Q (k (.error e)) (P.next ph c (.error e)))
    (ho : ∀ a, P.answers ph c (.ok a) → P.wp Q (k (.ok a)) (P.next ph c (.ok a))) : P.wp Q (.call c k) ph :=
  ⟨ha, fun r => match r with | .error e => he e | .ok a => ho a⟩

theorem wp_ite {b : Prop} [Decidable b] {p q : Program Cmd Resp Err α} {ph : P.Phase} (hp : b → P.wp Q p ph)
    (hq : ¬ b → P.wp Q q ph) : P.wp Q (if b then p else q) ph := by
  split
  · next h => exact hp h
  · next h => exact hq h

theorem wp_mono (h : ∀ ph r, Q ph r → Q' ph r) {p : Program Cmd Resp Err α} {ph : P.Phase}
    (hp : P.wp Q p ph) : P.wp Q' p ph := by
  induction p generalizing ph with
  | ret a => exact h _ _ hp
  | throw e => exact h _ _ hp
  | call c k ih => exact ⟨hp.1, fun r hr => ih r (hp.2 r hr)⟩

/-- The program leaves the phases of a set no more than its commands do. -/
def Keeps (P : Protocol Cmd Resp Err) (K : P.Phase → Prop) (p : Program Cmd Resp Err α) : Prop :=
  ∀ ph, K ph → P.wp (fun ph' _ => K ph') p ph

namespace Keeps
variable {K : P.Phase → Prop}

theorem ret (a : α) : P.Keeps K (pure a : Program Cmd Resp Err α) := fun _ hk => hk

theorem throw (e : Err) : P.Keeps K (MonadExcept.throw e : Program Cmd Resp Err α) := fun _ hk => hk

theorem perform {c : Cmd} (h : ∀ ph, K ph → P.allowed ph c ∧ ∀ r, P.answers ph c r → K (P.next ph c r)) :
    P.Keeps K (.perform c : Program Cmd Resp Err (Resp c)) := fun ph hk => (wp_perform ph).2 (h ph hk)

theorem bind {p : Program Cmd Resp Err α} {f : α → Program Cmd Resp Err β} (hp : P.Keeps K p)
    (hf : ∀ a, P.Keeps K (f a)) : P.Keeps K (p >>= f) := by
  intro ph hk
  refine (wp_bind _ _ _).2 (wp_mono (fun ph' r hk' => ?_) (hp ph hk))
  cases r with
  | error e => exact hk'
  | ok a => exact hf a ph' hk'

theorem tryCatch {p : Program Cmd Resp Err α} {h : Err → Program Cmd Resp Err α} (hp : P.Keeps K p)
    (hh : ∀ e, P.Keeps K (h e)) : P.Keeps K (MonadExcept.tryCatch p h) := by
  intro ph hk
  refine (wp_tryCatch _ _ _).2 (wp_mono (fun ph' r hk' => ?_) (hp ph hk))
  cases r with
  | error e => exact hh e ph' hk'
  | ok a => exact hk'

theorem ite {b : Prop} [Decidable b] {p q : Program Cmd Resp Err α} (hp : P.Keeps K p) (hq : P.Keeps K q) :
    P.Keeps K (if b then p else q) := fun ph hk => wp_ite (fun _ => hp ph hk) fun _ => hq ph hk

end Keeps

/-- Two machines that answer alike in related states answer a whole program alike:
the relation may depend on the phase, and only allowed commands need to be matched. -/
theorem exec_related {σ τ : Type} {left : (c : Cmd) → σ → Except Err (Resp c) × σ}
    {right : (c : Cmd) → τ → Except Err (Resp c) × τ} {R : P.Phase → σ → τ → Prop}
    (hstep : ∀ ph c s t, P.allowed ph c → R ph s t → (left c s).1 = (right c t).1 ∧
      P.answers ph c (left c s).1 ∧ R (P.next ph c (left c s).1) (left c s).2 (right c t).2)
    {p : Program Cmd Resp Err α} {ph : P.Phase} {s : σ} {t : τ} (hp : P.wp Q p ph) (hr : R ph s t) :
    (p.exec left s).1 = (p.exec right t).1 ∧
      ∃ ph', R ph' (p.exec left s).2 (p.exec right t).2 ∧ Q ph' (p.exec left s).1 := by
  induction p generalizing ph s t with
  | ret a => exact ⟨rfl, ph, hr, hp⟩
  | throw e => exact ⟨rfl, ph, hr, hp⟩
  | call c k ih =>
    obtain ⟨he, ha, hn⟩ := hstep ph c s t hp.1 hr
    have h := ih (left c s).1 (hp.2 _ ha) hn
    simpa only [Program.exec_call, ← he] using h

end Protocol
end DocAuto.Process
