/-
# Statistics stay sound

A response added to statistics keeps every count within 64 bits and every float moderate. What it
changes depends on nothing that is lost when statistics are written and read back.

Main statements: `Sound.record`, `Akin.record`.
-/
import EvalProxy.Proofs.Stats.State
import EvalProxy.Proofs.Usage
namespace EvalProxy.Stats

open Decimal (Moderate)
open Json (maxU64)

/-! ## Counts -/

theorem bump_le (n : Nat) : bump n ≤ maxU64 := Usage.cappedAdd_le n 1

theorem CountsFit.bumpAt {counts : Dict Nat} (h : CountsFit counts) (key : String) :
    CountsFit (bumpAt counts key) := by
  intro e he
  rcases Assoc.mem_of_mem_insert he with rfl | he
  · exact bump_le _
  · exact h e he

theorem CountsFit.foldl_bumpAt {counts : Dict Nat} (h : CountsFit counts) (keys : List String) :
    CountsFit (keys.foldl Stats.bumpAt counts) := by
  induction keys generalizing counts with
  | nil => exact h
  | cons key keys ih => exact ih (h.bumpAt key)

/-! ## Means and largest values -/

/-- The mean stays moderate whatever is added. -/
theorem moderate_runningMean {mean : Option Float} (hm : ∀ m ∈ mean, Moderate m) {x : Float}
    (hx : Moderate x) {n : Nat} (hn : n ≤ maxU64) : Moderate (runningMean mean x n) := by
  cases mean with
  | none => exact hx
  | some m =>
    rw [runningMean]
    split
    · rename_i hmany
      obtain ⟨d, hd, hrounds⟩ := Decimal.isValue_toFloat (UInt64.ofNat n)
      have hnat : (UInt64.ofNat n).toNat = n := by
        rw [UInt64.toNat_ofNat', Nat.mod_eq_of_lt]
        exact Nat.lt_of_le_of_lt hn (by decide)
      rw [hnat] at hrounds
      have htwo : Decimal.Representable 2 := by
        simpa using Decimal.representable_two_zpow (j := 1) (by decide)
      exact Decimal.moderate_mean (hm m rfl) hx hd
        (hrounds.ge htwo (by exact_mod_cast hmany))
    · exact hx

/-- What is true of the largest value and of a new one is true of the larger of both. -/
theorem of_runningMax {β : Type} {P : β → Prop} {atLeast : β → β → Bool} {largest : Option β}
    (h : ∀ m ∈ largest, P m) {x : β} (hx : P x) : P (runningMax atLeast largest x) := by
  cases largest with
  | none => exact hx
  | some m =>
    rw [runningMax]
    split
    · exact h m rfl
    · exact hx

/-- A number of tokens keeps mean and largest value within bounds. -/
theorem Spread.Within.addTokens {s : Spread Float Nat} (h : s.Within (· ≤ maxU64)) {tokens n : Nat}
    (htokens : tokens ≤ maxU64) (hn : n ≤ maxU64) :
    (Aggregate.addTokens s tokens n).Within (· ≤ maxU64) := by
  constructor
  · rintro _ ⟨⟩
    exact moderate_runningMean h.1 (Decimal.moderate_toFloat _) hn
  · rintro _ ⟨⟩
    exact of_runningMax h.2 htokens

/-- A moderate latency keeps mean and largest value within bounds. -/
theorem Spread.Within.addLatency {s : Spread Float Float} (h : s.Within Moderate) {x : Float}
    (hx : Moderate x) {n : Nat} (hn : n ≤ maxU64) :
    (Aggregate.addLatency s x n).Within Moderate := by
  constructor
  · rintro _ ⟨⟩
    exact moderate_runningMean h.1 hx hn
  · rintro _ ⟨⟩
    exact of_runningMax h.2 hx

/-! ## Responses -/

theorem sound_empty : Sound .empty := by
  have hnone {β : Type} {P : β → Prop} : (Spread.empty : Spread Float β).Within P :=
    ⟨nofun, nofun⟩
  have hcounts : CountsFit .empty := nofun
  exact ⟨Nat.zero_le _, Nat.zero_le _, hnone, hnone, hnone, hnone, Nat.zero_le _, hcounts, hcounts,
    Nat.zero_le _⟩

/-- Sound statistics stay so after a usage that fits. -/
theorem Sound.addUsage {a : Aggregate Float} (h : Sound a) (settings : Settings) {u : Usage}
    (hu : u.Fits) {latency : Float} (hlatency : Moderate latency) :
    Sound (a.addUsage settings u latency) := by
  have htokens {s : Spread Float Nat} (hs : s.Within (· ≤ maxU64)) {count : Nat}
      (hcount : count ≤ maxU64) :
      (if settings.tokens then Aggregate.addTokens s count (bump a.successful) else s).Within
        (· ≤ maxU64) := by
    split
    · exact hs.addTokens hcount (bump_le _)
    · exact hs
  refine ⟨h.count, bump_le _, htokens h.prompt hu.prompt, htokens h.completion hu.completion,
    htokens h.total hu.total, h.latency.addLatency hlatency (bump_le _), ?_, h.statusCodes, ?_,
    h.runId⟩
  · show (if settings.toolCalls then _ else _) ≤ maxU64
    split
    · exact Usage.cappedAdd_le _ _
    · exact h.toolCalls
  · show CountsFit (if settings.finishReasons then _ else _)
    split
    · exact h.finishReasons.foldl_bumpAt _
    · exact h.finishReasons

/-- **A response keeps statistics sound.** -/
theorem Sound.record {a : Aggregate Float} (h : Sound a) (settings : Settings) (status : Nat)
    {usage : Option Usage} (husage : ∀ u ∈ usage, u.Fits) {latency : Float}
    (hlatency : Moderate latency) (stamp : String) :
    Sound (a.record settings status usage latency stamp) := by
  have hcounted : Sound { a with
      count := bump a.count, statusCodes := bumpAt a.statusCodes (toString status) } :=
    ⟨bump_le _, h.successful, h.prompt, h.completion, h.total, h.latency, h.toolCalls,
      h.statusCodes.bumpAt _, h.finishReasons, h.runId⟩
  -- the time of the update is of no account
  have hstamp {b : Aggregate Float} (hb : Sound b) : Sound { b with lastUpdated := some stamp } :=
    ⟨hb.count, hb.successful, hb.prompt, hb.completion, hb.total, hb.latency, hb.toolCalls,
      hb.statusCodes, hb.finishReasons, hb.runId⟩
  cases usage with
  | none => exact hstamp hcounted
  | some u => exact hstamp (hcounted.addUsage settings (husage u rfl) hlatency)

/-- A response does not change which run it is. -/
theorem runId_record (a : Aggregate Float) (settings : Settings) (status : Nat)
    (usage : Option Usage) (latency : Float) (stamp : String) :
    (a.record settings status usage latency stamp).runId = a.runId := by
  cases usage <;> rfl

/-! ## Akin statistics -/

theorem Akin.refl (a : Aggregate Float) : Akin a a :=
  ⟨rfl, rfl, ⟨rfl, rfl⟩, ⟨rfl, rfl⟩, ⟨rfl, rfl⟩, rfl, rfl, rfl, rfl⟩

theorem Spread.Akin.symm {β : Type} {s t : Spread Float β} (h : s.Akin t) : t.Akin s :=
  ⟨h.1.symm, h.2.symm⟩

theorem Akin.symm {a b : Aggregate Float} (h : Akin a b) : Akin b a :=
  ⟨h.count.symm, h.successful.symm, h.prompt.symm, h.completion.symm, h.total.symm, h.latency.symm,
    h.toolCalls.symm, h.statusCodes.symm, h.finishReasons.symm⟩

theorem Spread.Akin.trans {β : Type} {s t u : Spread Float β} (h : s.Akin t) (h' : t.Akin u) :
    s.Akin u :=
  ⟨h.1.trans h'.1, h.2.trans h'.2⟩

theorem Akin.trans {a b c : Aggregate Float} (h : Akin a b) (h' : Akin b c) : Akin a c :=
  ⟨h.count.trans h'.count, h.successful.trans h'.successful, h.prompt.trans h'.prompt,
    h.completion.trans h'.completion, h.total.trans h'.total, h.latency.trans h'.latency,
    h.toolCalls.trans h'.toolCalls, h.statusCodes.trans h'.statusCodes,
    h.finishReasons.trans h'.finishReasons⟩

/-- Akin means and largest values stay so after the same tokens. -/
theorem Spread.Akin.addTokens {s t : Spread Float Nat} (h : s.Akin t) (tokens n : Nat) :
    (Aggregate.addTokens s tokens n).Akin (Aggregate.addTokens t tokens n) :=
  ⟨rfl, congrArg (fun largest => some (runningMax _ largest tokens)) h.2⟩

/-- Akin statistics stay so after the same usage, at whatever latency. -/
theorem Akin.addUsage {a b : Aggregate Float} (h : Akin a b) (settings : Settings) (u : Usage)
    (x y : Float) : Akin (a.addUsage settings u x) (b.addUsage settings u y) := by
  have htokens {s t : Spread Float Nat} (hst : s.Akin t) (count : Nat) :
      (if settings.tokens then Aggregate.addTokens s count (bump a.successful) else s).Akin
        (if settings.tokens then Aggregate.addTokens t count (bump b.successful) else t) := by
    rw [h.successful]
    split
    · exact hst.addTokens _ _
    · exact hst
  refine ⟨h.count, congrArg bump h.successful, htokens h.prompt _, htokens h.completion _,
    htokens h.total _, rfl, ?_, h.statusCodes, ?_⟩
  · show (if settings.toolCalls then _ else _) = if settings.toolCalls then _ else _
    rw [h.toolCalls]
  · show (if settings.finishReasons then _ else _) = if settings.finishReasons then _ else _
    rw [h.finishReasons]

/-- **A response changes akin statistics alike**, whatever its latency and time. -/
theorem Akin.record {a b : Aggregate Float} (h : Akin a b) (settings : Settings) (status : Nat)
    (usage : Option Usage) (x y : Float) (s t : String) :
    Akin (a.record settings status usage x s) (b.record settings status usage y t) := by
  have hcounted : Akin
      { a with count := bump a.count, statusCodes := bumpAt a.statusCodes (toString status) }
      { b with count := bump b.count, statusCodes := bumpAt b.statusCodes (toString status) } :=
    ⟨congrArg bump h.count, h.successful, h.prompt, h.completion, h.total, h.latency, h.toolCalls,
      congrArg (bumpAt · _) h.statusCodes, h.finishReasons⟩
  have hstamp {c d : Aggregate Float} (hcd : Akin c d) :
      Akin { c with lastUpdated := some s } { d with lastUpdated := some t } :=
    ⟨hcd.count, hcd.successful, hcd.prompt, hcd.completion, hcd.total, hcd.latency, hcd.toolCalls,
      hcd.statusCodes, hcd.finishReasons⟩
  cases usage with
  | none => exact hstamp hcounted
  | some u => exact hstamp (hcounted.addUsage settings u x y)

end EvalProxy.Stats
