/-
# Token means under changing settings

Runs that go on from one another's statistics may collect token counts or not. A mean of tokens is
updated for the responses whose tokens are collected, but by the number of all responses that
reported usage. It is therefore a mean over all of these, in which a value stands in for each one
that was not collected: the mean so far, or the first value collected if there was none before.
It is the mean of what was collected, whatever that is, exactly if the responses that were collected
come before those that were not, or if at most one was collected.

Main definitions: `TokenKind`, `recordEach`, `history`, `standIns`, `Uninterrupted`.
Main statements: `Weighed.record`, `mean?_standIns`, `token_means_under_settings`.
-/
import EvalProxy.Proofs.Stats.Batch
namespace EvalProxy.Stats

open Json (maxU64)

/-! ## Means over histories -/

theorem mean?_of_ne_nil {xs : List ℚ} (h : xs ≠ []) : mean? xs = some (xs.sum / xs.length) :=
  if_neg h

theorem mean?_eq_none_iff {xs : List ℚ} : mean? xs = none ↔ xs = [] := by
  by_cases h : xs = []
  · subst h
    exact iff_of_true rfl rfl
  · rw [mean?_of_ne_nil h]
    exact iff_of_false (Option.some_ne_none _) h

/-- A mean does not depend on the order. -/
theorem mean?_perm {xs ys : List ℚ} (h : xs.Perm ys) : mean? xs = mean? ys := by
  by_cases hxs : xs = []
  · subst hxs
    rw [h.nil_eq]
  · have hys : ys ≠ [] := fun hys => hxs (hys ▸ h).eq_nil
    rw [mean?_of_ne_nil hxs, mean?_of_ne_nil hys, h.sum_eq, h.length_eq]

/-- The mean of equal values is their value. -/
theorem mean?_replicate (n : Nat) (x : ℚ) : mean? (List.replicate (n + 1) x) = some x := by
  have hpos : ((n + 1 : Nat) : ℚ) ≠ 0 := Nat.cast_ne_zero.2 n.succ_ne_zero
  have hne : List.replicate (n + 1) x ≠ [] := List.cons_ne_nil _ _
  rw [mean?_of_ne_nil hne, List.sum_replicate, List.length_replicate, nsmul_eq_mul,
    mul_div_cancel_left₀ x hpos]

/-- A mean stays when it is itself added as a value. -/
theorem mean?_toList_append (xs : List ℚ) : mean? ((mean? xs).toList ++ xs) = mean? xs := by
  by_cases hxs : xs = []
  · subst hxs
    rfl
  · have hpos : (xs.length : ℚ) ≠ 0 := Nat.cast_ne_zero.2 (mt List.length_eq_zero_iff.1 hxs)
    rw [mean?_of_ne_nil hxs, Option.toList_some, List.singleton_append,
      mean?_of_ne_nil (List.cons_ne_nil _ _), List.sum_cons, List.length_cons]
    push_cast
    congr 1
    have hpos' : (xs.length : ℚ) + 1 ≠ 0 := by positivity
    field_simp
    ring

/-- What is averaged if only some of the values are collected, the latest first: for each value that
is not collected the mean of those before it, and the first value that is collected for those. -/
def standIns : List (Option ℚ) → List ℚ
  | [] => []
  | none :: earlier => (mean? (standIns earlier)).toList ++ standIns earlier
  | some x :: earlier =>
    if standIns earlier = [] then List.replicate (earlier.length + 1) x else x :: standIns earlier

/-- Nothing is averaged exactly if nothing is collected. -/
theorem standIns_eq_nil_iff {h : List (Option ℚ)} : standIns h = [] ↔ h.reduceOption = [] := by
  induction h with
  | nil => exact Iff.rfl
  | cons value earlier ih =>
    cases value with
    | none =>
      rw [standIns, List.append_eq_nil_iff, List.reduceOption_cons_of_none, ← ih]
      refine ⟨And.right, fun hnil => ⟨?_, hnil⟩⟩
      rw [hnil]
      rfl
    | some x =>
      rw [standIns, List.reduceOption_cons_of_some]
      split <;> simp [List.replicate_succ]

/-- If any value is collected, each one has a stand-in. -/
theorem length_standIns {h : List (Option ℚ)} (hsome : standIns h ≠ []) :
    (standIns h).length = h.length := by
  induction h with
  | nil => rfl
  | cons value earlier ih =>
    cases value with
    | none =>
      rw [standIns] at hsome ⊢
      by_cases hnil : standIns earlier = []
      · rw [hnil] at hsome
        exact absurd rfl hsome
      · rw [mean?_of_ne_nil hnil, Option.toList_some, List.singleton_append, List.length_cons,
          ih hnil, List.length_cons]
    | some x =>
      rw [standIns]
      split
      · rw [List.length_replicate, List.length_cons]
      · rename_i hnil
        rw [List.length_cons, ih hnil, List.length_cons]

/-- A value that is not collected leaves the mean. -/
theorem mean?_standIns_none (h : List (Option ℚ)) :
    mean? (standIns (none :: h)) = mean? (standIns h) :=
  mean?_toList_append (standIns h)

/-- **A value that is collected** moves the mean by the number of all values. -/
theorem mean?_standIns_some (h : List (Option ℚ)) (x : ℚ) :
    mean? (standIns (some x :: h))
      = some (runningMean (mean? (standIns h)) x (h.length + 1)) := by
  rw [standIns]
  split
  · rename_i hnil
    rw [hnil, mean?_replicate]
    rfl
  · rename_i hsome
    rw [← length_standIns hsome, runningMean_mean?]
    exact mean?_perm (List.perm_append_singleton x (standIns h)).symm

/-! ## When nothing stands in -/

/-- Nothing stands in for values that are all collected. -/
theorem standIns_of_forall_isSome {h : List (Option ℚ)} (hall : ∀ value ∈ h, value.isSome = true) :
    standIns h = h.reduceOption := by
  induction h with
  | nil => rfl
  | cons value earlier ih =>
    obtain ⟨hvalue, hearlier⟩ := List.forall_mem_cons.1 hall
    obtain ⟨x, rfl⟩ := Option.isSome_iff_exists.1 hvalue
    rw [standIns, ih hearlier, List.reduceOption_cons_of_some]
    split
    · rename_i hnil
      rw [← List.reduceOption_length_eq_iff.2 hearlier, hnil]
      rfl
    · rfl

/-- If all values that are collected are equal, so is the mean. -/
theorem mean?_standIns_of_forall_eq {h : List (Option ℚ)} {c : ℚ} (hsome : h.reduceOption ≠ [])
    (heq : ∀ x ∈ h.reduceOption, x = c) : mean? (standIns h) = some c := by
  induction h with
  | nil => exact absurd rfl hsome
  | cons value earlier ih =>
    cases value with
    | none =>
      rw [List.reduceOption_cons_of_none] at hsome heq
      rw [mean?_standIns_none, ih hsome heq]
    | some x =>
      rw [List.reduceOption_cons_of_some] at heq
      obtain ⟨rfl, hearlier⟩ := List.forall_mem_cons.1 heq
      rw [mean?_standIns_some]
      by_cases hnil : earlier.reduceOption = []
      · rw [standIns_eq_nil_iff.2 hnil]
        rfl
      · rw [ih hnil hearlier, runningMean]
        show some (if _ then x + (x - x) / _ else x) = some x
        rw [sub_self, zero_div, add_zero, ite_self]

/-- Values that are not collected leave the mean. -/
theorem mean?_standIns_replicate_append (n : Nat) (h : List (Option ℚ)) :
    mean? (standIns (List.replicate n none ++ h)) = mean? (standIns h) := by
  induction n with
  | zero => rfl
  | succ n ih => rw [List.replicate_succ, List.cons_append, mean?_standIns_none, ih]

/-- As many values are left as there are places that have one. -/
theorem length_reduceOption (h : List (Option ℚ)) :
    h.reduceOption.length = (h.map Option.isSome).count true := by
  rw [List.reduceOption_length_eq, ← List.countP_eq_length_filter, List.count, List.countP_map]
  exact List.countP_congr fun value _ => by simp

/-- Nothing is collected again once something was not. -/
def Uninterrupted (on : List Bool) : Prop :=
  on.Pairwise fun earlier later => later = true → earlier = true

/-- With the latest switch first, collecting is uninterrupted if each one that is on follows ones
that are on. -/
theorem uninterrupted_reverse {on : List Bool} :
    Uninterrupted on.reverse ↔ on.Pairwise fun later earlier => later = true → earlier = true :=
  List.pairwise_reverse

/-- Switches that go off once and stay off are uninterrupted. -/
theorem uninterrupted_of_forall {earlier : List Bool} (n : Nat) (hall : ∀ b ∈ earlier, b = true) :
    Uninterrupted (List.replicate n false ++ true :: earlier).reverse := by
  rw [uninterrupted_reverse, List.pairwise_append, List.pairwise_cons]
  refine ⟨List.pairwise_replicate.2 (.inr id), ⟨fun b hb _ => hall b hb, ?_⟩, ?_⟩
  · exact List.pairwise_of_forall_mem_list fun _ _ b hb _ => hall b hb
  · intro a ha b _ htrue
    rw [List.eq_of_mem_replicate ha] at htrue
    cases htrue

/-- **The mean is that of what is collected**, if at most one value is, or if nothing is collected
after something was not. -/
theorem mean?_standIns {h : List (Option ℚ)}
    (hon : (h.map Option.isSome).count true ≤ 1 ∨ Uninterrupted (h.map Option.isSome).reverse) :
    mean? (standIns h) = mean? h.reduceOption := by
  rw [uninterrupted_reverse] at hon
  induction h with
  | nil => rfl
  | cons value earlier ih =>
    rw [List.map_cons, List.pairwise_cons, List.count_cons] at hon
    cases value with
    | none =>
      rw [mean?_standIns_none, List.reduceOption_cons_of_none]
      exact ih (hon.imp (fun hone => hone) And.right)
    | some x =>
      rw [List.reduceOption_cons_of_some]
      rcases hon with hone | ⟨hall, -⟩
      · have hnil : earlier.reduceOption = [] := by
          rw [← List.length_eq_zero_iff, length_reduceOption]
          simpa using hone
        rw [mean?_standIns_some, standIns_eq_nil_iff.2 hnil, hnil]
        exact (mean?_replicate 0 x).symm
      · have hearlier : ∀ value ∈ earlier, value.isSome = true := fun value hvalue =>
          hall _ (List.mem_map_of_mem hvalue) rfl
        rw [standIns_of_forall_isSome (List.forall_mem_cons.2 ⟨rfl, hearlier⟩),
          List.reduceOption_cons_of_some]

/-- Values of which the last that is collected is 1 and all others are 0, the latest first. -/
theorem mean?_standIns_one {h : List (Option ℚ)} (n : Nat) (hsome : h.reduceOption ≠ [])
    (hzero : ∀ x ∈ h.reduceOption, x = 0) :
    mean? (standIns (List.replicate n none ++ some 1 :: h)) = some (1 / ((h.length : ℚ) + 1)) := by
  have hpos : 0 < h.length :=
    (List.length_pos_iff.2 hsome).trans_le (List.reduceOption_length_le h)
  rw [mean?_standIns_replicate_append, mean?_standIns_some,
    mean?_standIns_of_forall_eq hsome hzero, runningMean, if_pos (by omega)]
  show some (0 + (1 - 0) / ((h.length + 1 : Nat) : ℚ)) = _
  push_cast
  rw [zero_add, sub_zero]

/-- Zero where values are collected. -/
def zeros {α : Type} [Zero α] (on : List Bool) : List (Option α) :=
  on.map fun b => if b then some 0 else none

/-- The zeros are collected where the switches are on. -/
theorem map_isSome_zeros {α : Type} [Zero α] (on : List Bool) :
    (zeros on : List (Option α)).map Option.isSome = on := by
  induction on with
  | nil => rfl
  | cons b on ih =>
    rw [zeros, List.map_cons, List.map_cons, ← zeros, ih]
    cases b <;> rfl

theorem map_cast_zeros (on : List Bool) :
    (zeros on : List (Option Nat)).map (Option.map Nat.cast) = (zeros on : List (Option ℚ)) := by
  rw [zeros, List.map_map]
  refine List.map_congr_left fun b _ => ?_
  cases b <;> simp

theorem eq_zero_of_mem_zeros {on : List Bool} :
    ∀ x ∈ (zeros on : List (Option ℚ)).reduceOption, x = 0 := by
  intro x hx
  obtain ⟨b, -, hb⟩ := List.mem_map.1 (List.reduceOption_mem_iff.1 hx)
  cases b with
  | false => cases hb
  | true => exact (Option.some.inj hb).symm

/-- There is a zero for each switch that is on. -/
theorem length_reduceOption_zeros (on : List Bool) :
    (zeros on : List (Option ℚ)).reduceOption.length = on.count true := by
  rw [length_reduceOption, map_isSome_zeros]

/-- The mean of a one and of zeros is the share of the one. -/
theorem mean?_reduceOption_one (n : Nat) (on : List Bool) :
    mean? (List.replicate n none ++ some 1 :: zeros on : List (Option ℚ)).reduceOption
      = some (1 / ((on.count true : ℚ) + 1)) := by
  rw [List.reduceOption_append, List.reduceOption_replicate_none, List.nil_append,
    List.reduceOption_cons_of_some, mean?_of_ne_nil (List.cons_ne_nil _ _), List.sum_cons,
    List.sum_eq_zero eq_zero_of_mem_zeros, List.length_cons, length_reduceOption_zeros]
  push_cast
  rw [add_zero]

/-- **The mean is not that of what is collected** for some values, if more than one is collected
and something is collected after something was not. -/
theorem exists_mean?_standIns_ne {on : List Bool} (hmany : 1 < on.count true)
    (hon : ¬ Uninterrupted on) :
    ∃ values : List (Option Nat), values.map Option.isSome = on ∧
      let h : List (Option ℚ) := (values.map (Option.map Nat.cast)).reverse
      mean? (standIns h) ≠ mean? h.reduceOption := by
  have hmem : true ∈ on.reverse := by
    rw [List.mem_reverse, ← List.count_pos_iff]
    omega
  obtain ⟨later, earlier, hsplit, hlater⟩ := List.eq_append_cons_of_mem hmem
  obtain ⟨n, rfl⟩ : ∃ n, later = List.replicate n false :=
    ⟨_, List.eq_replicate_of_mem fun b hb => Bool.eq_false_iff.2 fun h => hlater (h ▸ hb)⟩
  have hcount : on.count true = earlier.count true + 1 := by
    rw [← List.count_reverse, hsplit]
    simp [List.count_append, List.count_replicate]
  -- the last value that is collected is 1 and all others are 0
  refine ⟨(List.replicate n none ++ some 1 :: zeros earlier).reverse, ?_, ?_⟩
  · rw [List.map_reverse, ← List.reverse_reverse on, hsplit, List.map_append, List.map_cons,
      map_isSome_zeros, List.map_replicate]
    rfl
  · intro h hmean
    have hh : h = List.replicate n none ++ some 1 :: zeros earlier := by
      show ((List.replicate n none ++ some 1 :: zeros earlier).reverse.map _).reverse = _
      rw [List.map_reverse, List.reverse_reverse, List.map_append, List.map_cons,
        map_cast_zeros, List.map_replicate, Option.map_none, Option.map_some, Nat.cast_one]
    have hsome : (zeros earlier : List (Option ℚ)).reduceOption ≠ [] := by
      rw [← List.length_pos_iff, length_reduceOption_zeros]
      omega
    -- equal means would count as many values as are collected
    rw [hh, mean?_standIns_one n hsome eq_zero_of_mem_zeros, mean?_reduceOption_one,
      Option.some.injEq, one_div, one_div, inv_inj, zeros, List.length_map] at hmean
    have hfull : earlier.count true = earlier.length := by
      exact_mod_cast (add_right_cancel hmean).symm
    have hearlier : ∀ b ∈ earlier, b = true := fun b hb => (List.count_eq_length.1 hfull b hb).symm
    rw [← List.reverse_reverse on, hsplit] at hon
    exact hon (uninterrupted_of_forall n hearlier)

/-! ## Responses, each under its own settings -/

/-- A count of tokens that a usage reports. -/
inductive TokenKind where
  | prompt
  | completion
  | total

/-- The tokens of a kind. -/
def TokenKind.count : TokenKind → Usage → Nat
  | prompt => Usage.promptTokens
  | completion => Usage.completionTokens
  | total => Usage.totalTokens

/-- What is known of the tokens of a kind. -/
def TokenKind.spread {α : Type} : TokenKind → Aggregate α → Spread α Nat
  | prompt => Aggregate.promptTokens
  | completion => Aggregate.completionTokens
  | total => Aggregate.totalTokens

/-- The statistics of some responses, each taken under settings of its own. -/
def recordEach {α : Type} [Quantity α] (rs : List (Settings × Report α)) : Aggregate α :=
  rs.foldl (fun a r => a.record r.1 r.2.status r.2.usage r.2.latency r.2.stamp) .empty

theorem recordEach_concat {α : Type} [Quantity α] (rs : List (Settings × Report α))
    (r : Settings × Report α) :
    recordEach (rs ++ [r])
      = (recordEach rs).record r.1 r.2.status r.2.usage r.2.latency r.2.stamp :=
  List.foldl_concat ..

/-- The tokens of each response that reported usage, where they are collected. -/
def history {α : Type} (kind : TokenKind) (rs : List (Settings × Report α)) : List (Option ℚ) :=
  rs.filterMap fun r =>
    r.2.usage.map fun u => if r.1.tokens then some (kind.count u : ℚ) else none

/-- Whether tokens are collected, for each response that reported usage. -/
def switches {α : Type} (rs : List (Settings × Report α)) : List Bool :=
  rs.filterMap fun r => r.2.usage.map fun _ => r.1.tokens

/-- The switches tell which values of a history are collected. -/
theorem map_isSome_history {α : Type} (kind : TokenKind) (rs : List (Settings × Report α)) :
    (history kind rs).map Option.isSome = switches rs := by
  rw [history, switches, List.map_filterMap]
  refine List.filterMap_congr fun r _ => ?_
  obtain ⟨settings, status, usage, latency, stamp⟩ := r
  cases usage with
  | none => rfl
  | some u =>
    show some (if settings.tokens then _ else none : Option ℚ).isSome = some settings.tokens
    cases settings.tokens <;> rfl

theorem length_history_le {α : Type} (kind : TokenKind) (rs : List (Settings × Report α)) :
    (history kind rs).length ≤ rs.length :=
  List.length_filterMap_le ..

/-- All responses that reported usage are counted, and a mean is over all of them. -/
structure Weighed (kind : TokenKind) (h : List (Option ℚ)) (a : Aggregate ℚ) : Prop where
  successful : a.successful = h.length
  mean : (kind.spread a).mean = mean? (standIns h.reverse)

theorem weighed_empty (kind : TokenKind) : Weighed kind [] .empty := by
  cases kind <;> exact ⟨rfl, rfl⟩

/-- A response with usage adds its tokens if they are collected. -/
theorem TokenKind.spread_record {α : Type} [Quantity α] (kind : TokenKind) (settings : Settings)
    (status : Nat) (u : Usage) (latency : α) (stamp : String) (a : Aggregate α) :
    kind.spread (a.record settings status (some u) latency stamp) =
      if settings.tokens then
        Aggregate.addTokens (kind.spread a) (kind.count u) (bump a.successful)
      else kind.spread a := by
  cases kind <;> rfl

/-- **One response** is added to what is averaged. -/
theorem Weighed.record {kind : TokenKind} {h : List (Option ℚ)} {a : Aggregate ℚ}
    (ha : Weighed kind h a) (hless : h.length < maxU64) (settings : Settings) (status : Nat)
    (u : Usage) (latency : ℚ) (stamp : String) :
    Weighed kind (h ++ [if settings.tokens then some (kind.count u : ℚ) else none])
      (a.record settings status (some u) latency stamp) := by
  have hbump : bump a.successful = h.length + 1 := by rw [ha.successful, bump_of_lt hless]
  refine ⟨?_, ?_⟩
  · rw [List.length_append]
    exact hbump
  · rw [kind.spread_record, List.reverse_concat]
    cases settings.tokens with
    | false => exact ha.mean.trans (mean?_standIns_none h.reverse).symm
    | true =>
      rw [if_pos rfl, if_pos rfl, mean?_standIns_some, List.length_reverse, ← ha.mean, ← hbump]
      rfl

/-- All responses are weighed, as long as their number fits. -/
theorem weighed_recordEach (kind : TokenKind) {rs : List (Settings × Report ℚ)}
    (hless : rs.length ≤ maxU64) : Weighed kind (history kind rs) (recordEach rs) := by
  induction rs using List.reverseRecOn with
  | nil => exact weighed_empty kind
  | append_singleton rs r ih =>
    obtain ⟨settings, status, usage, latency, stamp⟩ := r
    rw [List.length_append, List.length_singleton] at hless
    have hlength := length_history_le kind rs
    rw [recordEach_concat, history, List.filterMap_append, ← history]
    cases usage with
    | none =>
      obtain ⟨hsuccessful, hmean⟩ := ih (by omega)
      refine ⟨hsuccessful.trans (congrArg List.length (List.append_nil _).symm), ?_⟩
      show _ = mean? (standIns (history kind rs ++ []).reverse)
      rw [List.append_nil, ← hmean]
      cases kind <;> rfl
    | some u => exact (ih (by omega)).record (by omega) settings status u latency stamp

/-- A response with as many tokens of each kind, if they are collected. -/
def staged (tokens : Option Nat) : Settings × Report ℚ :=
  let n := tokens.getD 0
  (⟨none, none, tokens.isSome, true, true, 0⟩, ⟨200, some ⟨n, n, n, [], 0⟩, 0, ""⟩)

/-- The history of staged responses is the values they were staged with. -/
theorem history_staged (kind : TokenKind) (values : List (Option Nat)) :
    history kind (values.map staged) = values.map (Option.map Nat.cast) := by
  rw [history, List.filterMap_map, ← List.filterMap_eq_map]
  refine List.filterMap_congr fun tokens _ => ?_
  cases tokens <;> cases kind <;> rfl

/-- The switches of staged responses are on where they have a value. -/
theorem switches_staged (values : List (Option Nat)) :
    switches (values.map staged) = values.map Option.isSome := by
  rw [switches, List.filterMap_map, ← List.filterMap_eq_map]
  rfl

/-- **A mean of tokens is over all responses that reported usage**, also if settings change from one
to the next: the values are those that were collected and, for each response whose tokens were not,
a value that stands in for them. There is a mean once tokens were collected. It is that of the
tokens that were collected, whatever they are, exactly if at most one response was, or if none was
after one that was not. -/
theorem token_means_under_settings (kind : TokenKind) :
    (∀ rs : List (Settings × Report ℚ), rs.length < 2 ^ 64 →
      (kind.spread (recordEach rs)).mean = mean? (standIns (history kind rs).reverse) ∧
      ((kind.spread (recordEach rs)).mean = none ↔ (history kind rs).reduceOption = [])) ∧
    ∀ on : List Bool, on.length < 2 ^ 64 →
      ((∀ rs : List (Settings × Report ℚ), rs.length < 2 ^ 64 → switches rs = on →
        (kind.spread (recordEach rs)).mean = mean? (history kind rs).reduceOption) ↔
      on.count true ≤ 1 ∨ Uninterrupted on) := by
  have hmean {rs : List (Settings × Report ℚ)} (hless : rs.length < 2 ^ 64) :
      (kind.spread (recordEach rs)).mean = mean? (standIns (history kind rs).reverse) :=
    (weighed_recordEach kind (Nat.le_of_lt_succ hless)).mean
  have hreverse (h : List (Option ℚ)) : h.reverse.reduceOption = h.reduceOption.reverse :=
    List.filterMap_reverse ..
  have hcollected (h : List (Option ℚ)) : mean? h.reverse.reduceOption = mean? h.reduceOption := by
    rw [hreverse]
    exact mean?_perm (List.reverse_perm _)
  refine ⟨fun rs hless => ⟨hmean hless, ?_⟩, fun on hlength => ⟨fun hall => ?_, fun hon => ?_⟩⟩
  · rw [hmean hless, mean?_eq_none_iff, standIns_eq_nil_iff, hreverse, List.reverse_eq_nil_iff]
  · by_contra hnot
    obtain ⟨hmany, hon⟩ := not_or.1 hnot
    obtain ⟨values, rfl, hne⟩ := exists_mean?_standIns_ne (not_le.1 hmany) hon
    rw [List.length_map] at hlength
    have hless : (values.map staged).length < 2 ^ 64 := by rwa [List.length_map]
    have heq := hall (values.map staged) hless (switches_staged values)
    rw [hmean hless, ← hcollected, history_staged] at heq
    exact hne heq
  · rintro rs hless rfl
    rw [hmean hless, ← hcollected]
    refine mean?_standIns ?_
    rwa [List.map_reverse, List.count_reverse, List.reverse_reverse, map_isSome_history]

/-- Tokens are collected of two responses, but not of the one before them: the mean is nearer to the
first that was collected than to the second. -/
theorem token_means_under_settings_off_on_on :
    let rs := [none, some 10, some 20].map staged
    (recordEach rs).promptTokens.mean = some (40 / 3) ∧
      standIns (history .prompt rs).reverse = [20, 10, 10] ∧
      ¬ ∀ rs' : List (Settings × Report ℚ), rs'.length < 2 ^ 64 → switches rs' = switches rs →
        (recordEach rs').totalTokens.mean = mean? (history .total rs').reduceOption := by
  intro rs
  have hstandIns : standIns (history .prompt rs).reverse = [20, 10, 10] := by decide +kernel
  have hmean : mean? [20, 10, 10] = some (40 / 3) := by decide +kernel
  have hinterrupted : ¬ Uninterrupted (switches rs) := by
    unfold Uninterrupted
    decide
  refine ⟨?_, hstandIns, fun hall => ?_⟩
  · rw [← hmean, ← hstandIns]
    exact ((token_means_under_settings .prompt).1 rs (by decide)).1
  · rcases ((token_means_under_settings .total).2 (switches rs) (by decide)).1 hall with hone | hon
    · revert hone
      decide
    · exact hinterrupted hon

/-- The mean of two responses that were collected is not that of their tokens, if a response was not
collected before. -/
theorem exists_mean_ne_collected :
    ¬ ∀ (kind : TokenKind) (rs : List (Settings × Report ℚ)), rs.length < 2 ^ 64 →
      (kind.spread (recordEach rs)).mean = mean? (history kind rs).reduceOption := by
  intro hall
  have h := hall .prompt ([none, some 10, some 20].map staged) (by decide)
  revert h
  decide +kernel

end EvalProxy.Stats
