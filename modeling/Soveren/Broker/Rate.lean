import Mathlib.Algebra.Order.Ring.Rat
import Mathlib.Tactic.Linarith
import Soveren.Broker.Admission

/-! The rolling rate limiter against the whole history of its calls: the timestamps that it keeps
are the admitted calls of the last sixty seconds. -/
namespace Soveren.Broker

/-- A call of the limiter: its time and the limit that it gives. -/
structure RateCall where
  now : ℚ
  limit : Int

/-- One call, with the times of the calls that were admitted so far. -/
def RateLimiter.call (state : RateLimiter × List ℚ) (c : RateCall) : RateLimiter × List ℚ :=
  let (limiter, allowed) := state.1.allow c.now c.limit
  (limiter, if allowed then state.2 ++ [c.now] else state.2)

/-- The limiter after some calls. -/
def RateLimiter.after (calls : List RateCall) : RateLimiter := (calls.foldl call ({}, [])).1

/-- The times of the calls that returned true. -/
def RateLimiter.admitted (calls : List RateCall) : List ℚ := (calls.foldl call ({}, [])).2

namespace RateLimiter

variable {calls : List RateCall} {c : RateCall}

theorem after_snoc (calls : List RateCall) (c : RateCall) :
    after (calls ++ [c]) = ((after calls).allow c.now c.limit).1 := by
  rw [after, List.foldl_concat]
  rfl

theorem admitted_snoc (calls : List RateCall) (c : RateCall) :
    admitted (calls ++ [c]) = if ((after calls).allow c.now c.limit).2 then admitted calls ++ [c.now]
      else admitted calls := by
  rw [admitted, List.foldl_concat]
  rfl

/-- On sorted times, what eviction from the front leaves is what lies after the cutoff. -/
theorem dropWhile_eq_filter {times : List ℚ} (h : times.Pairwise (· ≤ ·)) (cutoff : ℚ) :
    times.dropWhile (· ≤ cutoff) = times.filter (cutoff < ·) := by
  induction times with
  | nil => rfl
  | cons t times ih =>
    obtain ⟨hle, htimes⟩ := List.pairwise_cons.mp h
    by_cases ht : t ≤ cutoff
    · simp [ht, ih htimes, not_lt.mpr ht]
    · have hlt : cutoff < t := not_le.mp ht
      have hall : ∀ u ∈ times, cutoff < u := fun u hu => hlt.trans_le (hle u hu)
      have hself : times.filter (cutoff < ·) = times := List.filter_eq_self.mpr (by simpa using hall)
      simp [ht, hlt, hself]

/-- What holds after calls up to a time: the admitted times are sorted and not later, and the limiter
keeps those that are not sixty seconds old. -/
structure Tracks (calls : List RateCall) (last : ℚ) : Prop where
  sorted : (admitted calls).Pairwise (· ≤ ·)
  past : ∀ u ∈ admitted calls, u ≤ last
  kept : ∃ cutoff, cutoff ≤ last - 60 ∧
    (after calls).timestamps = (admitted calls).filter (cutoff < ·)

/-- What the limiter counts at a call. -/
theorem Tracks.recent {last : ℚ} (h : Tracks calls last) (hc : last ≤ c.now) :
    (after calls).timestamps.dropWhile (· ≤ c.now - 60) =
      (admitted calls).filter (c.now - 60 < ·) := by
  obtain ⟨cutoff, hcutoff, hkept⟩ := h.kept
  have hsorted : (after calls).timestamps.Pairwise (· ≤ ·) := by
    rw [hkept]
    exact h.sorted.filter _
  rw [dropWhile_eq_filter hsorted, hkept, List.filter_filter]
  refine List.filter_congr fun u _ => ?_
  by_cases hu : c.now - 60 < u
  · have hcut : cutoff < u := by linarith
    simp [hu, hcut]
  · simp [hu]

/-- A call is admitted if and only if fewer calls than its limit were admitted in the window that
ends with it. -/
theorem Tracks.allow_iff {last : ℚ} (h : Tracks calls last) (hc : last ≤ c.now) :
    ((after calls).allow c.now c.limit).2 = true ↔
      ((admitted calls).countP (fun u => c.now - 60 < u ∧ u ≤ c.now) : Int) < c.limit := by
  have hcount : (admitted calls).countP (fun u => c.now - 60 < u ∧ u ≤ c.now) =
      ((admitted calls).filter (c.now - 60 < ·)).length := by
    rw [← List.countP_eq_length_filter]
    refine List.countP_congr fun u hu => ?_
    have hle : u ≤ c.now := (h.past u hu).trans hc
    simp [hle]
  unfold allow
  rw [h.recent hc, hcount]
  dsimp only
  split
  · rename_i hle
    simpa using hle
  · rename_i hlt
    simpa using not_le.mp hlt

theorem Tracks.call {last : ℚ} (h : Tracks calls last) (hc : last ≤ c.now) :
    Tracks (calls ++ [c]) c.now := by
  have hrecent := h.recent hc
  have hpast : ∀ u ∈ admitted calls, u ≤ c.now := fun u hu => (h.past u hu).trans hc
  cases hallow : ((after calls).allow c.now c.limit).2 with
  | false =>
    have hadmitted : admitted (calls ++ [c]) = admitted calls := by simp [admitted_snoc, hallow]
    refine ⟨hadmitted ▸ h.sorted, hadmitted ▸ hpast, c.now - 60, le_rfl, ?_⟩
    rw [after_snoc, hadmitted, ← hrecent]
    unfold allow at hallow ⊢
    dsimp only at hallow ⊢
    split at hallow
    · rw [if_pos ‹_›]
    · cases hallow
  | true =>
    have hadmitted : admitted (calls ++ [c]) = admitted calls ++ [c.now] := by
      simp [admitted_snoc, hallow]
    refine ⟨?_, ?_, c.now - 60, le_rfl, ?_⟩
    · rw [hadmitted, List.pairwise_append]
      exact ⟨h.sorted, List.pairwise_singleton _ _, by simpa using hpast⟩
    · rw [hadmitted]
      exact List.forall_mem_append.mpr ⟨hpast, by simp⟩
    · rw [after_snoc, hadmitted, List.filter_append, ← hrecent]
      unfold allow at hallow ⊢
      dsimp only at hallow ⊢
      split at hallow
      · cases hallow
      · rw [if_neg ‹_›]
        simp

/-- The calls come in the order of their times. -/
def Ordered (calls : List RateCall) : Prop := calls.Pairwise fun c d => c.now ≤ d.now

theorem Tracks.later {last last' : ℚ} (h : Tracks calls last) (hle : last ≤ last') :
    Tracks calls last' := by
  obtain ⟨cutoff, hcutoff, hkept⟩ := h.kept
  exact ⟨h.sorted, fun u hu => (h.past u hu).trans hle, cutoff, by linarith, hkept⟩

theorem tracks (horder : Ordered calls) (last : ℚ) (hlast : ∀ c ∈ calls, c.now ≤ last) :
    Tracks calls last := by
  induction calls using List.reverseRecOn generalizing last with
  | nil => exact ⟨List.Pairwise.nil, List.forall_mem_nil _, last - 60, le_rfl, rfl⟩
  | append_singleton calls c ih =>
    obtain ⟨hcalls, -, hc⟩ := List.pairwise_append.mp horder
    have hbefore := ih hcalls c.now fun d hd => hc d hd c (List.mem_singleton.mpr rfl)
    exact (hbefore.call le_rfl).later (hlast c (by simp))

/-- The limiter before the last of some calls. -/
theorem tracks_before {pre post : List RateCall} (horder : Ordered (pre ++ c :: post)) :
    Tracks pre c.now := by
  obtain ⟨hpre, -, hc⟩ := List.pairwise_append.mp horder
  exact tracks hpre c.now fun d hd => hc d hd c List.mem_cons_self

/-- Under one limit, no set of times of which any two are less than sixty seconds apart contains
more admitted calls. -/
theorem countP_admitted_le (horder : Ordered calls) {limit : ℕ} (hlimit : ∀ c ∈ calls, c.limit = limit)
    {window : ℚ → Prop} [DecidablePred window] (hwindow : ∀ u v, window u → window v → v - u < 60) :
    (admitted calls).countP window ≤ limit := by
  induction calls using List.reverseRecOn with
  | nil => exact Nat.zero_le limit
  | append_singleton calls c ih =>
    obtain ⟨hcalls, -, -⟩ := List.pairwise_append.mp horder
    have hbefore := ih hcalls fun d hd => hlimit d (List.mem_append_left _ hd)
    rw [admitted_snoc]
    split
    · rename_i hallow
      have htracks := tracks_before horder
      rw [List.countP_append, List.countP_singleton]
      by_cases hc : window c.now
      · -- the whole window lies in the sixty seconds that the limiter has counted
        have hlt := (htracks.allow_iff le_rfl).mp hallow
        rw [hlimit c (by simp)] at hlt
        have hsub : (admitted calls).countP window ≤
            (admitted calls).countP (fun u => c.now - 60 < u ∧ u ≤ c.now) := by
          refine List.countP_mono_left fun u hu hw => ?_
          have hage := hwindow u c.now (of_decide_eq_true hw) hc
          exact decide_eq_true ⟨by linarith, htracks.past u hu⟩
        simp only [hc, decide_true, if_true]
        omega
      · simpa [hc] using hbefore
    · exact hbefore

/-- The limiter is exact: at every call of a history in the order of time it admits if and only if
fewer than the call's limit were admitted in the sixty seconds that end with the call. So under one
limit no window of sixty seconds has more admitted calls. -/
theorem rate_limiter_exact (calls : List RateCall) (horder : Ordered calls) :
    (∀ pre c post, calls = pre ++ c :: post →
      (((after pre).allow c.now c.limit).2 = true ↔
        ((admitted pre).countP (fun u => c.now - 60 < u ∧ u ≤ c.now) : Int) < c.limit)) ∧
    ∀ limit : ℕ, (∀ c ∈ calls, c.limit = limit) → ∀ x : ℚ,
      (admitted calls).countP (fun u => x - 60 < u ∧ u ≤ x) ≤ limit ∧
      (admitted calls).countP (fun u => x ≤ u ∧ u < x + 60) ≤ limit := by
  refine ⟨fun pre c post hcalls => ?_, fun limit hlimit x => ⟨?_, ?_⟩⟩
  · subst hcalls
    exact (tracks_before horder).allow_iff le_rfl
  · exact countP_admitted_le horder hlimit fun u v hu hv => by linarith [hu.1, hv.2]
  · exact countP_admitted_le horder hlimit fun u v hu hv => by linarith [hu.1, hv.2]

/-- Two calls, of which the second comes after the window of the first. -/
theorem rate_limiter_exact_two :
    Ordered [⟨0, 1⟩, ⟨60, 1⟩] ∧ admitted [⟨0, 1⟩, ⟨60, 1⟩] = [0, 60] ∧
    ∀ x : ℚ, (admitted [⟨0, 1⟩, ⟨60, 1⟩]).countP (fun u => x - 60 < u ∧ u ≤ x) ≤ 1 := by
  have horder : Ordered [⟨0, 1⟩, ⟨60, 1⟩] := by simp [Ordered]
  refine ⟨horder, by decide +kernel, fun x => ?_⟩
  exact ((rate_limiter_exact _ horder).2 1 (by simp) x).1

end RateLimiter

end Soveren.Broker
