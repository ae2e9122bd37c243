import DocAuto.Process.Run
import DocAuto.RateLimit.SlidingWindow

/-! One limiter on one key. What its sorted set holds are the admitted calls of the last
window, and it answers as a list of all admitted times would. -/
namespace DocAuto.RateLimit
open Process

/-- A call of `checkRateLimit`: its time and the random part of its member. -/
structure Check where
  now : Nat
  suffix : Nat
  deriving DecidableEq, Repr

def Check.answer (limit windowMs : Nat) (c : Check) (s : SortedSet) : Bool × Nat :=
  (checkRateLimit limit windowMs c.now c.suffix s).1

def Check.after (limit windowMs : Nat) (c : Check) (s : SortedSet) : SortedSet :=
  (checkRateLimit limit windowMs c.now c.suffix s).2

/-- The set whose key does not expire. -/
def SortedSet.persist (s : SortedSet) : SortedSet := { s with expiresAt := none }

/-- `kept` is the set as it would be if no key ever expired, and `admitted` the times of the
calls allowed so far, newest first. -/
structure Limiter where
  set : SortedSet
  kept : SortedSet
  now : Nat
  drawn : List Member
  admitted : List Nat

namespace Limiter

def initial : Limiter := ⟨.empty, .empty, 0, [], []⟩

/-- The next call. Times do not decrease, and no member is drawn twice. -/
def step (limit windowMs : Nat) (s : Limiter) (c : Check) : Option Limiter :=
  if s.now ≤ c.now ∧ ⟨c.now, c.suffix⟩ ∉ s.drawn then
    some {
      set := c.after limit windowMs s.set
      kept := c.after limit windowMs s.kept.persist
      now := c.now
      drawn := ⟨c.now, c.suffix⟩ :: s.drawn
      admitted := if (c.answer limit windowMs s.set).1 then c.now :: s.admitted else s.admitted }
  else none

end Limiter

/-- The answer of a window over a list of times, of any length: its purpose. -/
def windowAnswer (limit windowMs t : Nat) (admitted : List Nat) : Bool × Nat :=
  if (within windowMs t admitted).length < limit then (true, (within windowMs t admitted).length + 1)
  else (false, (within windowMs t admitted).length)

/-- The times that satisfy `p`, counted. -/
def counting (p : Int → Prop) [DecidablePred p] (times : List Nat) : Nat := times.countP fun x : Nat => decide (p x)

/-- One call of an exact sliding window. -/
structure ExactWindow (limit windowMs : Nat) (s : Limiter) (c : Check) (s' : Limiter) : Prop where
  answer : c.answer limit windowMs s.set = windowAnswer limit windowMs c.now s.admitted
  admitted : s'.admitted = if (windowAnswer limit windowMs c.now s.admitted).1 then c.now :: s.admitted else s.admitted
  refined : s'.set.entries.map (·.score) = (within windowMs s'.now s'.admitted).reverse
  unexpiring : c.answer limit windowMs s.kept.persist = c.answer limit windowMs s.set
  cappedRight : ∀ a : Int, counting (fun x => a < x ∧ x ≤ a + windowMs) s'.admitted ≤ limit
  cappedLeft : ∀ a : Int, counting (fun x => a ≤ x ∧ x < a + windowMs) s'.admitted ≤ limit

/-- The set holds, of the admitted times, those of the last window, in their order. -/
structure Reflects (windowMs : Nat) (admitted : List Nat) (drawn : List Member) (now : Nat) (s : SortedSet) : Prop where
  scores : s.entries.map (·.score) = (within windowMs now admitted).reverse
  expiry : ∀ x ∈ s.expiresAt, ∀ e ∈ s.entries, e.score + windowMs ≤ x
  drawn : ∀ e ∈ s.entries, e.member ∈ drawn

namespace Reflects
variable {limit windowMs now t suffix : Nat} {admitted : List Nat} {drawn : List Member} {s : SortedSet}

theorem initial : Reflects windowMs [] [] 0 .empty := ⟨rfl, nofun, nofun⟩

theorem within_within (hn : now ≤ t) (hpast : ∀ x ∈ admitted, x ≤ now) :
    (within windowMs now admitted).filter (fun x => decide (t < x + windowMs)) = within windowMs t admitted := by
  rw [within, within, List.filter_filter]
  refine List.filter_congr fun x hx => ?_
  have := hpast x hx
  rw [Bool.eq_iff_iff]
  simp only [Bool.and_eq_true, decide_eq_true_eq]
  omega

/-- What a later call counts. -/
theorem counted (h : Reflects windowMs admitted drawn now s) (hn : now ≤ t) (hpast : ∀ x ∈ admitted, x ≤ now) :
    (s.counted windowMs t).map (·.score) = (within windowMs t admitted).reverse := by
  have hkept : (s.entries.filter fun e => decide (t < e.score + windowMs)).map (·.score) =
      (within windowMs t admitted).reverse := by
    rw [← within_within hn hpast, ← List.filter_reverse, ← h.scores, List.filter_map]
    rfl
  rw [← hkept, SortedSet.counted, SortedSet.live]
  split
  · next hx =>
    obtain ⟨x, hx, hxt⟩ := (Option.any_eq_true _ _).1 hx
    -- a key that has expired held nothing of the window
    have hnil : s.entries.filter (fun e => decide (t < e.score + windowMs)) = [] := by
      refine List.filter_eq_nil_iff.2 fun e he => ?_
      have := h.expiry x hx e he
      simp only [decide_eq_true_eq] at hxt ⊢
      omega
    rw [hnil]
    rfl
  · rfl

theorem persist (h : Reflects windowMs admitted drawn now s) : Reflects windowMs admitted drawn now s.persist :=
  ⟨h.scores, nofun, h.drawn⟩

private theorem mem_counted {e : Entry} (he : e ∈ s.counted windowMs t) : e ∈ s.entries :=
  live_subset t (List.mem_filter.1 he).1

/-- A call answers as the list of times does, and the set reflects the list afterwards. -/
theorem check (limit : Nat) (h₀ : 0 < windowMs) (h : Reflects windowMs admitted drawn now s) (hn : now ≤ t)
    (hpast : ∀ x ∈ admitted, x ≤ now) (hm : ⟨t, suffix⟩ ∉ drawn) :
    Check.answer limit windowMs ⟨t, suffix⟩ s = windowAnswer limit windowMs t admitted ∧
      Reflects windowMs (if (windowAnswer limit windowMs t admitted).1 then t :: admitted else admitted)
        (⟨t, suffix⟩ :: drawn) t (Check.after limit windowMs ⟨t, suffix⟩ s) := by
  have hscores := h.counted hn hpast
  have hlen : (s.counted windowMs t).length = (within windowMs t admitted).length := by
    rw [← List.length_map, hscores, List.length_reverse]
  have hdrawn : ∀ e ∈ s.counted windowMs t, e.member ∈ (⟨t, suffix⟩ :: drawn : List Member) := fun e he =>
    List.mem_cons_of_mem _ (h.drawn e (mem_counted he))
  unfold Check.answer Check.after windowAnswer
  by_cases hroom : (within windowMs t admitted).length < limit
  · have hunseen : ∀ e ∈ s.entries, e.member ≠ ⟨t, suffix⟩ := fun e he hem => hm (hem ▸ h.drawn e he)
    rw [checkRateLimit_allowed (hlen ▸ hroom) hunseen, if_pos hroom, hlen]
    refine ⟨rfl, ?_, ?_, ?_⟩
    · have hnow : within windowMs t (t :: admitted) = t :: within windowMs t admitted := by
        rw [within, List.filter_cons, if_pos (by simp [h₀])]
        rfl
      simp only [if_true, hnow, List.map_append, hscores, List.map_singleton, List.reverse_cons]
    · intro x hx e he
      obtain rfl : t + windowMs = x := Option.some.inj hx
      rcases List.mem_append.1 he with he | he
      · -- what is counted was admitted by `t`
        have hmem : e.score ∈ (s.counted windowMs t).map (·.score) := List.mem_map_of_mem he
        rw [hscores, List.mem_reverse, within, List.mem_filter] at hmem
        have := hpast _ hmem.1
        omega
      · exact Nat.le_of_eq (congrArg (fun e : Entry => e.score + windowMs) (List.mem_singleton.1 he))
    · intro e he
      rcases List.mem_append.1 he with he | he
      · exact hdrawn e he
      · rw [List.mem_singleton.1 he]
        exact List.mem_cons_self
  · rw [checkRateLimit_refused (hlen ▸ Nat.not_lt.1 hroom), if_neg hroom, hlen]
    refine ⟨rfl, hscores, ?_, hdrawn⟩
    intro x hx e he
    refine h.expiry x ?_ e (mem_counted he)
    show x ∈ s.expiresAt
    unfold SortedSet.live at hx
    split at hx
    · cases hx
    · exact hx

end Reflects

/-- The two sets reflect the admitted times, and no window of them is overfull. -/
structure Windowed (limit windowMs : Nat) (s : Limiter) : Prop where
  set : Reflects windowMs s.admitted s.drawn s.now s.set
  kept : Reflects windowMs s.admitted s.drawn s.now s.kept
  past : ∀ x ∈ s.admitted, x ≤ s.now
  capped : ∀ t, (within windowMs t s.admitted).length ≤ limit

section Step
variable {limit windowMs : Nat} {s s' : Limiter} {c : Check}

theorem initial_windowed : Windowed limit windowMs .initial := ⟨.initial, .initial, nofun, fun _ => Nat.zero_le _⟩

private theorem limiter_inv (h : Limiter.step limit windowMs s c = some s') :
    s.now ≤ c.now ∧ ⟨c.now, c.suffix⟩ ∉ s.drawn ∧ s' = {
      set := c.after limit windowMs s.set
      kept := c.after limit windowMs s.kept.persist
      now := c.now
      drawn := ⟨c.now, c.suffix⟩ :: s.drawn
      admitted := if (c.answer limit windowMs s.set).1 then c.now :: s.admitted else s.admitted } := by
  unfold Limiter.step at h
  split at h
  · next hc => exact ⟨hc.1, hc.2, (Option.some.inj h).symm⟩
  · cases h

theorem step_windowed (h₀ : 0 < windowMs) (hs : Windowed limit windowMs s)
    (h : Limiter.step limit windowMs s c = some s') : Windowed limit windowMs s' := by
  obtain ⟨hn, hm, rfl⟩ := limiter_inv h
  obtain ⟨hanswer, hset⟩ := hs.set.check limit h₀ hn hs.past hm
  obtain ⟨-, hkept⟩ := hs.kept.persist.check limit h₀ hn hs.past hm
  have hpast : ∀ x ∈ s.admitted, x ≤ c.now := fun x hx => Nat.le_trans (hs.past x hx) hn
  refine ⟨?_, ?_, ?_, ?_⟩ <;> dsimp only <;> rw [show c.answer limit windowMs s.set = _ from hanswer]
  · exact hset
  · exact hkept
  all_goals
    unfold windowAnswer
    split
  · exact List.forall_mem_cons.2 ⟨Nat.le_refl _, hpast⟩
  · exact hpast
  · next hroom => exact within_cons_le hpast hs.capped hroom
  · exact hs.capped

private theorem counting_within {times : List Nat} {p : Int → Prop} [DecidablePred p]
    (hc : ∀ t, (within windowMs t times).length ≤ limit) (a : Int) (hp : ∀ x : Nat, p x ↔ a < x ∧ x ≤ a + windowMs) :
    counting p times ≤ limit := by
  by_cases ha : a + windowMs < 0
  · have hnone : counting p times = 0 := by
      refine List.countP_eq_zero.2 fun x _ => ?_
      rw [decide_eq_true_iff, hp]
      omega
    rw [hnone]
    exact Nat.zero_le _
  · refine Nat.le_trans (Nat.le_of_eq ?_) (hc (a + windowMs).toNat)
    rw [counting, List.countP_eq_length_filter, within]
    refine congrArg List.length (List.filter_congr fun x _ => ?_)
    rw [Bool.eq_iff_iff, decide_eq_true_iff, hp]
    simp only [Bool.and_eq_true, decide_eq_true_eq]
    omega

theorem step_exact (h₀ : 0 < windowMs) (hs : Windowed limit windowMs s)
    (h : Limiter.step limit windowMs s c = some s') : ExactWindow limit windowMs s c s' := by
  have hs' := step_windowed h₀ hs h
  obtain ⟨hn, hm, rfl⟩ := limiter_inv h
  obtain ⟨hanswer, -⟩ := hs.set.check limit h₀ hn hs.past hm
  obtain ⟨hkept, -⟩ := hs.kept.persist.check limit h₀ hn hs.past hm
  refine ⟨hanswer, ?_, hs'.set.scores, hkept.trans hanswer.symm, fun a => ?_, fun a => ?_⟩
  · rw [← hanswer]
  · exact counting_within hs'.capped a fun x => Iff.rfl
  · exact counting_within hs'.capped (a - 1) fun x => by omega

end Step

/-- Every call of every sequence sees an exact sliding window. -/
theorem window_exact (limit windowMs : Nat) (h₀ : 0 < windowMs) (calls : List Check) :
    Along (Limiter.step limit windowMs) (ExactWindow limit windowMs) .initial calls :=
  along_of_inductive (fun _ _ _ => step_windowed h₀) (fun _ _ _ => step_exact h₀) initial_windowed

/-- Two calls a second: the third is refused, and the first has just left the window of the fourth. -/
theorem window_exact_four :
    (run (Limiter.step 2 1000) .initial [⟨0, 0⟩, ⟨500, 1⟩, ⟨999, 2⟩, ⟨1000, 3⟩]).map (·.admitted) = some [1000, 500, 0] ∧
      Along (Limiter.step 2 1000) (ExactWindow 2 1000) .initial [⟨0, 0⟩, ⟨500, 1⟩, ⟨999, 2⟩, ⟨1000, 3⟩] :=
  ⟨by decide, window_exact 2 1000 (by decide) _⟩

end DocAuto.RateLimit
