/-
# Statistics of many responses

Statistics that take one response after the other are those of all responses together: the counts
are numbers of responses, the largest values are the largest of those that were reported, and the
means are sums divided by numbers, if they are made of exact numbers. So it is for any number of
responses that a 64-bit count holds.

Main definitions: `IsLargest`, `mean?`, `recordAll`, `samples`, `Tallies`, `Sampled`, `Averaged`.
Main statements: `Tallies.record`, `Sampled.record`, `Averaged.record`, `recordAll_eq_batch`.
-/
import EvalProxy.Proofs.Decimal.Order
import EvalProxy.Proofs.Dict
import EvalProxy.Stats.Aggregate
namespace EvalProxy

/-! ## Counts by key -/

/-- What a value put at a key adds to the sum of all values. -/
theorem Assoc.sum_insert {entries : List (String × Nat)} (h : Assoc.Ordered entries) (key : String)
    (value : Nat) :
    ((insert key value entries).map (·.2)).sum + (get? key entries).getD 0
      = (entries.map (·.2)).sum + value := by
  induction entries with
  | nil => simp [insert, get?]
  | cons e rest ih =>
    obtain ⟨k, v⟩ := e
    obtain ⟨hfirst, hrest⟩ := List.pairwise_cons.1 h
    rw [insert, get?]
    by_cases hlt : key < k
    · have hnone : get? key rest = none := by
        refine get?_eq_none_of_forall_ne fun e he heq => ?_
        exact String.lt_irrefl _ (String.lt_trans hlt (heq ▸ hfirst e he))
      have hne : k ≠ key := by
        rintro rfl
        exact String.lt_irrefl _ hlt
      rw [if_pos hlt, if_neg hne, hnone]
      simp only [List.map_cons, List.sum_cons, Option.getD_none]
      omega
    · rw [if_neg hlt]
      by_cases heq : key = k
      · rw [if_pos heq, if_pos heq.symm]
        simp only [List.map_cons, List.sum_cons, Option.getD_some]
        omega
      · rw [if_neg heq, if_neg (Ne.symm heq)]
        have := ih hrest
        simp only [List.map_cons, List.sum_cons]
        omega

namespace Stats

open Decimal (place le_iff_place_le)
open Json (maxU64)

/-- How often something occurs, if it does. -/
def occurring (n : Nat) : Option Nat := if n = 0 then none else some n

theorem getD_occurring (n : Nat) : (occurring n).getD 0 = n := by
  rw [occurring]
  split
  · exact Eq.symm ‹n = 0›
  · rfl

/-- Below the largest number of 64 bits a bump adds one. -/
theorem bump_of_lt {n : Nat} (h : n < maxU64) : bump n = n + 1 := Nat.min_eq_left h

/-- A bump at a key counts there and nowhere else. -/
theorem get?_bumpAt (counts : Dict Nat) (key key' : String) :
    (bumpAt counts key).get? key'
      = if key = key' then some (bump ((counts.get? key).getD 0)) else counts.get? key' :=
  Dict.get?_insert ..

/-- The keys of a list, counted one after the other. -/
def tally (keys : List String) : Dict Nat := keys.foldl bumpAt .empty

theorem tally_append (keys more : List String) :
    tally (keys ++ more) = more.foldl bumpAt (tally keys) :=
  List.foldl_append

/-- **Counting keys** tells how often each occurs, as far as a 64-bit count does. -/
theorem get?_tally (keys : List String) (key : String) :
    (tally keys).get? key = occurring (min (keys.count key) maxU64) := by
  induction keys using List.reverseRecOn with
  | nil => rfl
  | append_singleton keys last ih =>
    rw [tally_append, List.foldl_cons, List.foldl_nil, get?_bumpAt, List.count_append,
      List.count_singleton]
    by_cases heq : last = key
    · subst heq
      rw [if_pos rfl, ih, getD_occurring, beq_self_eq_true, if_pos rfl, occurring, if_neg]
      · rw [bump, Usage.cappedAdd]
        congr 1
        omega
      · have : 0 < maxU64 := by decide
        omega
    · rw [if_neg heq, ih, beq_eq_false_iff_ne.2 heq]
      rfl

/-! ## Largest values -/

/-- The largest of some values, if there are any. -/
structure IsLargest {β : Type} [LE β] (xs : List β) (largest : Option β) : Prop where
  none_iff : largest = none ↔ xs = []
  greatest : ∀ m ∈ largest, m ∈ xs ∧ ∀ x ∈ xs, x ≤ m

theorem isLargest_nil {β : Type} [LE β] : IsLargest ([] : List β) none := ⟨by simp, nofun⟩

/-- The largest of values is their maximum. -/
theorem IsLargest.eq_max? {β : Type} [LinearOrder β] {xs : List β} {largest : Option β}
    (h : IsLargest xs largest) : largest = xs.max? := by
  cases largest with
  | none => rw [h.none_iff.1 rfl, List.max?_nil]
  | some m => exact (List.max?_eq_some_iff.2 (h.greatest m rfl)).symm

/-- The largest value stays the largest when a value is added, if the values have ranks by which
they are compared. -/
theorem IsLargest.concat {β γ : Type} [LE β] [LinearOrder γ] {xs : List β} {largest : Option β}
    (h : IsLargest xs largest) (rank : β → γ) {x : β} {atLeast : β → β → Bool}
    (hrank : ∀ y ∈ xs ++ [x], ∀ m ∈ xs ++ [x], y ≤ m ↔ rank y ≤ rank m)
    (hatLeast : ∀ m, atLeast m x = true ↔ x ≤ m) :
    IsLargest (xs ++ [x]) (some (runningMax atLeast largest x)) := by
  have hx : x ∈ xs ++ [x] := by simp
  have hrefl : x ≤ x := (hrank x hx x hx).2 le_rfl
  have hadded {m : β} (hm : x ≤ m) (hgreatest : ∀ y ∈ xs, y ≤ m) : ∀ y ∈ xs ++ [x], y ≤ m := by
    intro y hy
    rcases List.mem_append.1 hy with hy | hy
    · exact hgreatest y hy
    · rwa [List.mem_singleton.1 hy]
  refine ⟨by simp, ?_⟩
  rintro _ ⟨⟩
  cases largest with
  | none =>
    obtain rfl := h.none_iff.1 rfl
    exact ⟨hx, hadded hrefl nofun⟩
  | some m =>
    obtain ⟨hm, hgreatest⟩ := h.greatest m rfl
    have hm' : m ∈ xs ++ [x] := by simp [hm]
    rw [runningMax]
    split
    · rename_i hle
      exact ⟨hm', hadded ((hatLeast m).1 hle) hgreatest⟩
    -- what is smaller than the new value is larger than the others
    · rename_i hlt
      rw [hatLeast, hrank x hx m hm', not_le] at hlt
      refine ⟨hx, hadded hrefl fun y hy => ?_⟩
      have hy' : y ∈ xs ++ [x] := by simp [hy]
      exact (hrank y hy' x hx).2 (((hrank y hy' m hm').1 (hgreatest y hy)).trans hlt.le)

/-- What is collected of some values. -/
def collected {β : Type} (on : Bool) (xs : List β) : List β := if on then xs else []

theorem collected_append {β : Type} (on : Bool) (xs ys : List β) :
    collected on (xs ++ ys) = collected on xs ++ collected on ys := by
  cases on <;> rfl

theorem collected_nil {β : Type} (on : Bool) : collected on ([] : List β) = [] := by
  cases on <;> rfl

/-- A count of tokens is collected, if counts are. -/
theorem IsLargest.addTokens {α : Type} [Quantity α] {on : Bool} {xs : List Nat}
    {s : Spread α Nat} (h : IsLargest (collected on xs) s.largest) (tokens n : Nat) :
    IsLargest (collected on (xs ++ [tokens]))
      (if on then Aggregate.addTokens s tokens n else s).largest := by
  cases on with
  | false => exact h
  | true => exact h.concat id (fun _ _ _ _ => Iff.rfl) fun m => decide_eq_true_iff

/-! ## Means -/

/-- Exact numbers. -/
instance : Quantity ℚ where
  ofNat n := n
  atLeast x y := y ≤ x

/-- The mean of some values, if there are any. -/
def mean? (xs : List ℚ) : Option ℚ := if xs = [] then none else some (xs.sum / xs.length)

/-- **Updating a mean** gives the mean of all values. -/
theorem runningMean_mean? (xs : List ℚ) (x : ℚ) :
    some (runningMean (mean? xs) x (xs.length + 1)) = mean? (xs ++ [x]) := by
  have hone : mean? (xs ++ [x]) = some ((xs.sum + x) / (xs.length + 1)) := by
    rw [mean?, if_neg (by simp), List.sum_append, List.length_append]
    simp
  rw [hone, mean?]
  split
  · rename_i hnil
    subst hnil
    simp [runningMean]
  · rename_i hsome
    have hpos : 0 < xs.length := List.length_pos_iff.2 hsome
    have hpos' : (0 : ℚ) < xs.length := by exact_mod_cast hpos
    rw [runningMean, if_pos (by omega)]
    show some (xs.sum / xs.length + (x - xs.sum / xs.length) / ((xs.length + 1 : Nat) : ℚ)) = _
    push_cast
    congr 1
    field_simp
    ring

/-- One more number of tokens moves the mean to that of all of them. -/
theorem mean_addTokens {on : Bool} {xs : List ℚ} {s : Spread ℚ Nat}
    (h : s.mean = mean? (collected on xs)) (tokens : Nat) :
    (if on then Aggregate.addTokens s tokens (xs.length + 1) else s).mean
      = mean? (collected on (xs ++ [(tokens : ℚ)])) := by
  cases on with
  | false => exact h
  | true =>
    show some (runningMean s.mean (tokens : ℚ) (xs.length + 1)) = mean? (xs ++ [(tokens : ℚ)])
    rw [h]
    exact runningMean_mean? xs tokens

/-! ## Responses -/

/-- A response as statistics take it: its status, its usage if it reported any, how long it took,
and the time of the update. -/
structure Report (α : Type) where
  status : Nat
  usage : Option Usage
  latency : α
  stamp : String

/-- The usages that were reported, each with how long its response took. -/
def samples {α : Type} (rs : List (Report α)) : List (Usage × α) :=
  rs.filterMap fun r => r.usage.map (·, r.latency)

theorem samples_concat {α : Type} (rs : List (Report α)) (r : Report α) :
    samples (rs ++ [r]) = samples rs ++ (r.usage.map (·, r.latency)).toList := by
  rw [samples, List.filterMap_append]
  rcases r with ⟨status, usage, latency, stamp⟩
  cases usage <;> rfl

/-- The statistics of some responses, taken one after the other. -/
def recordAll {α : Type} [Quantity α] (settings : Settings) (rs : List (Report α)) :
    Aggregate α :=
  rs.foldl (fun a r => a.record settings r.status r.usage r.latency r.stamp) .empty

theorem recordAll_concat {α : Type} [Quantity α] (settings : Settings) (rs : List (Report α))
    (r : Report α) :
    recordAll settings (rs ++ [r])
      = (recordAll settings rs).record settings r.status r.usage r.latency r.stamp :=
  List.foldl_concat ..

/-- Responses are counted, all together and by their statuses. -/
structure Tallies {α : Type} (statuses : List Nat) (a : Aggregate α) : Prop where
  count : a.count = statuses.length
  sum : (a.statusCodes.entries.map (·.2)).sum = statuses.length
  status : ∀ code, a.statusCodes.get? (toString code) = occurring (statuses.count code)
  keys : ∀ key ∈ a.statusCodes.keys, ∃ code ∈ statuses, key = toString code

/-- What is told of the usages that were reported, but for the means. -/
structure Sampled {α : Type} (settings : Settings) (samples : List (Usage × α))
    (a : Aggregate α) : Prop where
  successful : a.successful = samples.length
  prompt : IsLargest (collected settings.tokens (samples.map (·.1.promptTokens)))
    a.promptTokens.largest
  completion : IsLargest (collected settings.tokens (samples.map (·.1.completionTokens)))
    a.completionTokens.largest
  total : IsLargest (collected settings.tokens (samples.map (·.1.totalTokens)))
    a.totalTokens.largest
  toolCalls : a.toolCalls
    = min (collected settings.toolCalls (samples.map (·.1.toolCalls))).sum maxU64
  finishReasons : a.finishReasons
    = tally (collected settings.finishReasons (samples.flatMap (·.1.finishReasons)))

/-- Exact means are sums divided by numbers. -/
structure Averaged (settings : Settings) (samples : List (Usage × ℚ)) (a : Aggregate ℚ) :
    Prop where
  prompt : a.promptTokens.mean
    = mean? (collected settings.tokens (samples.map fun s => (s.1.promptTokens : ℚ)))
  completion : a.completionTokens.mean
    = mean? (collected settings.tokens (samples.map fun s => (s.1.completionTokens : ℚ)))
  total : a.totalTokens.mean
    = mean? (collected settings.tokens (samples.map fun s => (s.1.totalTokens : ℚ)))
  latency : a.latency.mean = mean? (samples.map (·.2))

theorem tallies_empty {α : Type} : Tallies [] (.empty : Aggregate α) :=
  ⟨rfl, rfl, fun _ => rfl, nofun⟩

theorem sampled_empty {α : Type} (settings : Settings) :
    Sampled settings [] (.empty : Aggregate α) := by
  have hlargest : IsLargest (collected settings.tokens ([] : List Nat)) none := by
    rw [collected_nil]
    exact isLargest_nil
  refine ⟨rfl, hlargest, hlargest, hlargest, ?_, ?_⟩
  · rw [List.map_nil, collected_nil]
    exact (Nat.zero_min _).symm
  · rw [List.flatMap_nil, collected_nil]
    rfl

theorem averaged_empty (settings : Settings) : Averaged settings [] .empty := by
  have hmean : none = mean? (collected settings.tokens ([] : List ℚ)) := by
    rw [collected_nil]
    rfl
  exact ⟨hmean, hmean, hmean, rfl⟩

section

variable {α : Type} [Quantity α] {settings : Settings} {a : Aggregate α}

/-- **One response** is counted. -/
theorem Tallies.record {statuses : List Nat} (h : Tallies statuses a)
    (hless : statuses.length < maxU64) (settings : Settings) (status : Nat)
    (usage : Option Usage) (latency : α) (stamp : String) :
    Tallies (statuses ++ [status]) (a.record settings status usage latency stamp) := by
  have hcounts : (a.record settings status usage latency stamp).count = bump a.count ∧
      (a.record settings status usage latency stamp).statusCodes
        = bumpAt a.statusCodes (toString status) := by
    cases usage <;> exact ⟨rfl, rfl⟩
  have hold : bump ((a.statusCodes.get? (toString status)).getD 0)
      = statuses.count status + 1 := by
    rw [h.status, getD_occurring]
    exact bump_of_lt (List.count_le_length.trans_lt hless)
  obtain ⟨hcount, hcodes⟩ := hcounts
  refine ⟨?_, ?_, fun code => ?_, fun key hkey => ?_⟩
  · rw [hcount, h.count, bump_of_lt hless, List.length_append]
    rfl
  · have hsum := Assoc.sum_insert a.statusCodes.ordered (toString status)
      (bump ((a.statusCodes.get? (toString status)).getD 0))
    have hadded : (Assoc.get? (toString status) a.statusCodes.entries).getD 0
        = statuses.count status := by
      rw [← getD_occurring (statuses.count status), ← h.status]
      rfl
    rw [hadded, hold, h.sum] at hsum
    rw [hcodes, bumpAt, hold, List.length_append, List.length_singleton]
    show ((Assoc.insert _ _ _).map _).sum = _
    omega
  · rw [hcodes, get?_bumpAt, hold, h.status, List.count_append, List.count_singleton]
    by_cases heq : status = code
    · subst heq
      simp [occurring]
    · simp [heq]
  · rw [hcodes] at hkey
    rcases (Dict.mem_keys_insert ..).1 hkey with rfl | hkey
    · exact ⟨status, by simp, rfl⟩
    · obtain ⟨code, hcode, rfl⟩ := h.keys key hkey
      exact ⟨code, by simp [hcode], rfl⟩

/-- One more usage is told of with the others. -/
theorem Sampled.addUsage {samples : List (Usage × α)} (h : Sampled settings samples a)
    (hless : samples.length < maxU64) (u : Usage) (latency : α) :
    Sampled settings (samples ++ [(u, latency)]) (a.addUsage settings u latency) := by
  refine ⟨?_, ?_, ?_, ?_, ?_, ?_⟩
  · show bump a.successful = _
    rw [h.successful, bump_of_lt hless, List.length_append]
    rfl
  · rw [List.map_append]
    exact h.prompt.addTokens u.promptTokens _
  · rw [List.map_append]
    exact h.completion.addTokens u.completionTokens _
  · rw [List.map_append]
    exact h.total.addTokens u.totalTokens _
  · show (if settings.toolCalls then _ else _) = _
    rw [h.toolCalls, List.map_append, collected_append, List.sum_append]
    cases settings.toolCalls with
    | false => rfl
    | true =>
      show min (min (samples.map (·.1.toolCalls)).sum maxU64 + u.toolCalls) maxU64
        = min ((samples.map (·.1.toolCalls)).sum + (u.toolCalls + 0)) maxU64
      omega
  · show (if settings.finishReasons then _ else _) = _
    rw [h.finishReasons, List.flatMap_append, List.flatMap_singleton, collected_append,
      tally_append]
    cases settings.finishReasons <;> rfl

/-- **One response** tells what it used. -/
theorem Sampled.record {samples : List (Usage × α)} (h : Sampled settings samples a)
    (hless : samples.length < maxU64) (status : Nat) (usage : Option Usage) (latency : α)
    (stamp : String) :
    Sampled settings (samples ++ (usage.map (·, latency)).toList)
      (a.record settings status usage latency stamp) := by
  have hcounted : Sampled settings samples
      { a with count := bump a.count, statusCodes := bumpAt a.statusCodes (toString status) } :=
    ⟨h.successful, h.prompt, h.completion, h.total, h.toolCalls, h.finishReasons⟩
  have hstamp {xs : List (Usage × α)} {b : Aggregate α} (hb : Sampled settings xs b) :
      Sampled settings xs { b with lastUpdated := some stamp } :=
    ⟨hb.successful, hb.prompt, hb.completion, hb.total, hb.toolCalls, hb.finishReasons⟩
  cases usage with
  | none =>
    rw [Option.map_none, Option.toList_none, List.append_nil]
    exact hstamp hcounted
  | some u => exact hstamp (hcounted.addUsage hless u latency)

end

/-- **One response** moves the means to those of all usages. -/
theorem Averaged.record {settings : Settings} {samples : List (Usage × ℚ)} {a : Aggregate ℚ}
    (h : Averaged settings samples a) (hsuccessful : a.successful = samples.length)
    (hless : samples.length < maxU64) (status : Nat) (usage : Option Usage) (latency : ℚ)
    (stamp : String) :
    Averaged settings (samples ++ (usage.map (·, latency)).toList)
      (a.record settings status usage latency stamp) := by
  cases usage with
  | none =>
    rw [Option.map_none, Option.toList_none, List.append_nil]
    exact ⟨h.prompt, h.completion, h.total, h.latency⟩
  | some u =>
    have hbump : bump a.successful = samples.length + 1 := by rw [hsuccessful, bump_of_lt hless]
    have htokens (f : Usage → Nat) {s : Spread ℚ Nat}
        (hs : s.mean = mean? (collected settings.tokens (samples.map fun s => (f s.1 : ℚ)))) :
        (if settings.tokens then Aggregate.addTokens s (f u) (bump a.successful) else s).mean
          = mean? (collected settings.tokens
            ((samples ++ [(u, latency)]).map fun s => (f s.1 : ℚ))) := by
      rw [hbump, List.map_append]
      simpa using mean_addTokens hs (f u)
    refine ⟨htokens _ h.prompt, htokens _ h.completion, htokens _ h.total, ?_⟩
    show some (runningMean a.latency.mean latency (bump a.successful)) = _
    rw [hbump, h.latency, Option.map_some, Option.toList_some, List.map_append]
    simpa using runningMean_mean? (samples.map (·.2)) latency

/-- **The largest latency** is that of a response that reported usage, if latencies have ranks by
which they are compared. -/
theorem isLargest_latency {α γ : Type} [Quantity α] [LE α] [LinearOrder γ] (rank : α → γ)
    (settings : Settings) (rs : List (Report α))
    (hrank : ∀ x ∈ (samples rs).map (·.2), ∀ y ∈ (samples rs).map (·.2),
      x ≤ y ↔ rank x ≤ rank y)
    (hatLeast : ∀ x y : α, Quantity.atLeast x y = true ↔ y ≤ x) :
    IsLargest ((samples rs).map (·.2)) (recordAll settings rs).latency.largest := by
  induction rs using List.reverseRecOn with
  | nil => exact isLargest_nil
  | append_singleton rs r ih =>
    obtain ⟨status, usage, latency, stamp⟩ := r
    rw [recordAll_concat]
    rw [samples_concat, List.map_append] at hrank ⊢
    have hlargest := ih fun x hx y hy =>
      hrank x (List.mem_append_left _ hx) y (List.mem_append_left _ hy)
    cases usage with
    | none =>
      rw [Option.map_none, Option.toList_none, List.map_nil, List.append_nil]
      exact hlargest
    | some u => exact hlargest.concat rank hrank fun m => hatLeast m latency

/-! ## All responses together -/

theorem length_samples_le {α : Type} (rs : List (Report α)) : (samples rs).length ≤ rs.length :=
  List.length_filterMap_le ..

section

variable (settings : Settings)

/-- All responses are tallied, as long as their number fits. -/
theorem tallies_recordAll {α : Type} [Quantity α] {rs : List (Report α)}
    (hless : rs.length ≤ maxU64) : Tallies (rs.map (·.status)) (recordAll settings rs) := by
  induction rs using List.reverseRecOn with
  | nil => exact tallies_empty
  | append_singleton rs r ih =>
    rw [List.length_append, List.length_singleton] at hless
    rw [recordAll_concat, List.map_append]
    refine (ih (by omega)).record ?_ settings r.status r.usage r.latency r.stamp
    rw [List.length_map]
    omega

/-- All samples are told of, as long as their number fits. -/
theorem sampled_recordAll {α : Type} [Quantity α] {rs : List (Report α)}
    (hless : rs.length ≤ maxU64) : Sampled settings (samples rs) (recordAll settings rs) := by
  induction rs using List.reverseRecOn with
  | nil => exact sampled_empty settings
  | append_singleton rs r ih =>
    rw [List.length_append, List.length_singleton] at hless
    have hsamples := length_samples_le rs
    rw [recordAll_concat, samples_concat]
    exact (ih (by omega)).record (by omega) r.status r.usage r.latency r.stamp

/-- All samples are averaged, as long as their number fits. -/
theorem averaged_recordAll {rs : List (Report ℚ)} (hless : rs.length ≤ maxU64) :
    Averaged settings (samples rs) (recordAll settings rs) := by
  induction rs using List.reverseRecOn with
  | nil => exact averaged_empty settings
  | append_singleton rs r ih =>
    rw [List.length_append, List.length_singleton] at hless
    have hsamples := length_samples_le rs
    have hsuccessful : (recordAll settings rs).successful = (samples rs).length :=
      (sampled_recordAll settings (by omega)).successful
    rw [recordAll_concat, samples_concat]
    exact (ih (by omega)).record hsuccessful (by omega) r.status r.usage r.latency r.stamp

end

/-- **Statistics that take one response after the other are those of all together.** The counts, the
largest token counts and the tool calls are those of all responses, whatever means are made of; each
reason is counted as often as it occurs, as far as a 64-bit count does; and the largest latency is
the largest, if latencies are numbers. With exact numbers each mean is a sum divided by a number. A
response without usage changes nothing but the number of responses and of those with its status, and
the time of the update. -/
theorem recordAll_eq_batch (settings : Settings) :
    (∀ (α : Type) [Quantity α] (rs : List (Report α)), rs.length < 2 ^ 64 →
      Tallies (rs.map (·.status)) (recordAll settings rs) ∧
      Sampled settings (samples rs) (recordAll settings rs) ∧
      ∀ reason, (recordAll settings rs).finishReasons.get? reason
        = occurring (min ((collected settings.finishReasons
          ((samples rs).flatMap (·.1.finishReasons))).count reason) maxU64)) ∧
    (∀ rs : List (Report ℚ), rs.length < 2 ^ 64 →
      Averaged settings (samples rs) (recordAll settings rs) ∧
      IsLargest ((samples rs).map (·.2)) (recordAll settings rs).latency.largest) ∧
    (∀ rs : List (Report Float), (∀ s ∈ samples rs, s.2.isNaN = false) →
      IsLargest ((samples rs).map (·.2)) (recordAll settings rs).latency.largest) ∧
    ∀ (α : Type) [Quantity α] (a : Aggregate α) (status : Nat) (latency : α) (stamp : String),
      a.record settings status none latency stamp =
        { a with
          count := bump a.count
          statusCodes := bumpAt a.statusCodes (toString status)
          lastUpdated := some stamp } := by
  have hmax {n : Nat} (h : n < 2 ^ 64) : n ≤ maxU64 := Nat.le_of_lt_succ h
  refine ⟨fun α _ rs hless => ?_, fun rs hless => ?_, fun rs hnumber => ?_, fun _ _ _ _ _ _ => rfl⟩
  · have hsampled := sampled_recordAll settings (hmax hless)
    refine ⟨tallies_recordAll settings (hmax hless), hsampled, fun reason => ?_⟩
    rw [hsampled.finishReasons, get?_tally]
  · exact ⟨averaged_recordAll settings (hmax hless),
      isLargest_latency id settings rs (fun _ _ _ _ => Iff.rfl)
        fun _ _ => decide_eq_true_iff⟩
  · refine isLargest_latency (fun x => place x.toModel.unpack) settings rs ?_
      fun _ _ => decide_eq_true_iff
    have hall : ∀ x ∈ (samples rs).map (·.2), x.isNaN = false := by
      intro x hx
      obtain ⟨s, hs, rfl⟩ := List.mem_map.1 hx
      exact hnumber s hs
    exact fun x hx y hy => le_iff_place_le (hall x hx) (hall y hy)

/-- Two responses with usage and one without, with exact latencies and with floats. -/
theorem recordAll_eq_batch_three :
    let settings : Settings := ⟨none, none, true, true, false, 0⟩
    let reports {α : Type} (x y z : α) : List (Report α) :=
      [⟨200, some ⟨3, 5, 8, ["stop", "stop"], 1⟩, x, "first"⟩, ⟨500, none, y, "second"⟩,
        ⟨200, some ⟨5, 1, 6, ["length"], 2⟩, z, "third"⟩]
    let a : Aggregate ℚ := recordAll settings (reports 10 70 20)
    a.count = 3 ∧ a.statusCodes.get? "200" = some 2 ∧ a.successful = 2 ∧
      a.promptTokens.mean = some 4 ∧ a.completionTokens.largest = some 5 ∧
      a.latency = ⟨some 15, some 20⟩ ∧ a.finishReasons.get? "stop" = some 2 ∧ a.toolCalls = 0 ∧
      IsLargest [10.0, 20.0]
        (recordAll settings (reports (10.0 : Float) 70.0 20.0)).latency.largest := by
  intro settings reports a
  obtain ⟨hcounts, hmeans, hfloats, -⟩ := recordAll_eq_batch settings
  obtain ⟨htallies, hsampled, hreasons⟩ := hcounts ℚ (reports 10 70 20) (by decide)
  obtain ⟨haveraged, hlargest⟩ := hmeans (reports 10 70 20) (by decide)
  have htokens : mean? [3, 5] = some 4 := by decide +kernel
  have hlatencies : mean? [10, 20] = some 15 := by decide +kernel
  refine ⟨htallies.count, htallies.status 200, hsampled.successful, ?_, ?_, ?_, ?_, ?_, ?_⟩
  · exact haveraged.prompt.trans htokens
  · exact hsampled.completion.eq_max?
  · exact congrArg₂ Spread.mk (haveraged.latency.trans hlatencies)
      (hlargest.eq_max?.trans (by decide))
  · exact (hreasons "stop").trans (by decide)
  · exact hsampled.toolCalls
  · refine hfloats (reports 10.0 70.0 20.0) ?_
    decide

end Stats

end EvalProxy
