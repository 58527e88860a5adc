/-
# Statistics read back

Statistics are written as counts, floats, texts and counts by key. All of it is read back as it was
written but for the floats, of which only the size is known.

Main definitions: `Written`, `Reread`, `Sound`, `Akin`.
Main statement: `exists_parse`.
-/
import EvalProxy.Proofs.Json.Scalars
import EvalProxy.Stats.Aggregate
namespace EvalProxy.Stats

open Decimal (Moderate)
open Json (Reads Skips prettyOctets fieldReader shapeReader maxU64)

/-! ## Values -/

/-- What statistics are written with. -/
inductive Written : Json → Prop where
  | null : Written .null
  | text (t : String) : Written (.text t)
  | nat {n : Nat} (h : n ≤ maxU64) : Written (.nat n)
  | float {x : Float} (h : Moderate x) : Written (.float x)
  | counts {d : Dict Nat} (h : ∀ e ∈ d.entries, e.2 ≤ maxU64) : Written (countsJson d)

/-- A value is read back as another: the same one, unless both are floats. -/
def Reread (v w : Json) : Prop := Written w ∧ (v = w ∨ ∃ x y, v = .float x ∧ w = .float y)

theorem Reread.refl {v : Json} (h : Written v) : Reread v v := ⟨h, .inl rfl⟩

theorem Reread.trans {u v w : Json} (h : Reread u v) (h' : Reread v w) : Reread u w := by
  obtain ⟨-, rfl | ⟨x, y, rfl, rfl⟩⟩ := h
  · exact h'
  · obtain ⟨hw, rfl | ⟨y', z, -, rfl⟩⟩ := h'
    · exact ⟨hw, .inr ⟨x, y, rfl, rfl⟩⟩
    · exact ⟨hw, .inr ⟨x, z, rfl, rfl⟩⟩

/-- The members that counts by key are written as. -/
def countMembers (d : Dict Nat) : List (String × Json) := d.entries.map fun e => (e.1, .nat e.2)

/-- The members of counts are in order and different. -/
theorem ofList_countMembers (d : Dict Nat) : Assoc.ofList (countMembers d) = countMembers d :=
  Assoc.ofList_of_ordered (d.ordered.mapValues fun _ n => Json.nat n)

/-- What statistics are written with is read back. -/
theorem Written.exists_reads {v : Json} (h : Written v) (indent : Nat) :
    ∃ w, Reread v w ∧ Reads Json.readValue 1 (prettyOctets indent v) w := by
  cases h with
  | null => exact ⟨_, .refl .null, (Json.reads_null indent).mono (by decide)⟩
  | text t => exact ⟨_, .refl (.text t), (Json.reads_text indent t).mono (by decide)⟩
  | nat h => exact ⟨_, .refl (.nat h), (Json.reads_nat indent h).mono (by decide)⟩
  | @float x h =>
    obtain ⟨y, hy, hread⟩ := Json.exists_readsNumber_float indent h
    exact ⟨_, ⟨.float hy, .inr ⟨x, y, rfl, rfl⟩⟩, hread.value.mono (by decide)⟩
  | @counts d h =>
    refine ⟨_, .refl (.counts h), ?_⟩
    have hread := @Json.reads_object 0 indent (countMembers d) (countMembers d)
      (List.forall₂_same.2 fun m hm => ?_)
    · rwa [ofList_countMembers] at hread
    · obtain ⟨e, he, rfl⟩ := List.mem_map.1 hm
      exact ⟨rfl, Json.reads_nat _ (h e he)⟩

/-- Whatever statistics are written with can be skipped. -/
theorem Written.skips {v : Json} (h : Written v) (indent : Nat) :
    Skips (prettyOctets indent v) := by
  cases h with
  | null => exact Json.skips_null indent
  | text t => exact Json.skips_text indent t
  | @nat n _ => exact Json.skips_nat indent n
  | @float x _ => exact Json.skips_float indent x
  | counts h =>
    refine Json.skips_object fun m hm => ?_
    obtain ⟨e, he, rfl⟩ := List.mem_map.1 hm
    exact Json.skips_nat _ e.2

/-! ## Fields -/

/-- A field admits a value of this kind. -/
def Takes (f : Json.Field) : Json → Prop
  | .null => f.nullable = true
  | .text _ => f.shape = .text
  | .int _ => f.shape = .u64
  | .float _ => f.shape = .float
  | .object _ => f.shape = .dict .u64
  | _ => False

/-- A field that admits a value admits what is read back. -/
theorem Takes.reread {f : Json.Field} {v w : Json} (h : Takes f v) (hw : Reread v w) :
    Takes f w := by
  obtain ⟨-, rfl | ⟨x, y, rfl, rfl⟩⟩ := hw
  · exact h
  · exact h

/-- A field reads back what it admits. -/
theorem Takes.exists_reads {f : Json.Field} {v : Json} (h : Takes f v) (hv : Written v)
    (indent : Nat) :
    ∃ w, Reread v w ∧ Reads (fieldReader f) 1 (prettyOctets indent v) w := by
  cases hv with
  | null => exact ⟨_, .refl .null, (Json.reads_field_null h indent).mono (by decide)⟩
  | text t =>
    refine ⟨_, .refl (.text t), ?_⟩
    have hread := (Json.reads_shape_text indent t).mono (n := 1) (by decide)
    rw [← show f.shape = .text from h, Json.prettyOctets_text] at hread
    rw [Json.prettyOctets_text]
    exact Json.reads_field (by decide) hread
  | @nat n hn =>
    refine ⟨_, .refl (.nat hn), ?_⟩
    have hread := (Json.reads_u64 indent hn).mono (n := 1) (by decide)
    obtain ⟨b, s, htext, hdigit, -⟩ := Json.exists_prettyOctets_nat indent n
    rw [← show f.shape = .u64 from h, htext] at hread
    rw [htext]
    exact Json.reads_field (Json.ne_of_isDigit hdigit rfl) hread
  | @float x hx =>
    obtain ⟨y, hy, hnumber⟩ := Json.exists_readsNumber_float indent hx
    refine ⟨_, ⟨.float hy, .inr ⟨x, y, rfl, rfl⟩⟩, ?_⟩
    have hread := (hnumber.shape (.inl rfl) (w := .float y) rfl).mono (n := 1) (by decide)
    rw [← show f.shape = .float from h] at hread
    generalize prettyOctets indent (.float x) = text at hnumber hread ⊢
    cases hnumber with
    | signed => exact Json.reads_field (by decide) hread
    | unsigned hdigit => exact Json.reads_field (Json.ne_of_isDigit hdigit rfl) hread
  | @counts d hd =>
    refine ⟨_, .refl (.counts hd), ?_⟩
    have hread := @Json.reads_dict .u64 0 indent (countMembers d) (countMembers d)
      (List.forall₂_same.2 fun m hm => ?_)
    · rw [Json.ofMembers, ofList_countMembers, ← show f.shape = .dict .u64 from h,
        Json.prettyOctets_object] at hread
      rw [countsJson, Json.prettyOctets_object]
      exact Json.reads_field (by decide) hread
    · obtain ⟨e, he, rfl⟩ := List.mem_map.1 hm
      exact ⟨rfl, Json.reads_u64 _ (hd e he)⟩

/-! ## The aggregate -/

/-- A mean and a largest value stay within bounds. -/
def Spread.Within {β : Type} (P : β → Prop) (s : Spread Float β) : Prop :=
  (∀ m ∈ s.mean, Moderate m) ∧ ∀ x ∈ s.largest, P x

/-- All counts by key fit into 64 bits. -/
def CountsFit (counts : Dict Nat) : Prop := ∀ e ∈ counts.entries, e.2 ≤ maxU64

/-- Statistics that can be written and read back. -/
structure Sound (a : Aggregate Float) : Prop where
  count : a.count ≤ maxU64
  successful : a.successful ≤ maxU64
  prompt : a.promptTokens.Within (· ≤ maxU64)
  completion : a.completionTokens.Within (· ≤ maxU64)
  total : a.totalTokens.Within (· ≤ maxU64)
  latency : a.latency.Within Moderate
  toolCalls : a.toolCalls ≤ maxU64
  statusCodes : CountsFit a.statusCodes
  finishReasons : CountsFit a.finishReasons
  runId : a.runId ≤ maxU64

/-- The same largest value, and a mean in both or in neither. -/
def Spread.Akin {β : Type} (s t : Spread Float β) : Prop :=
  s.mean.isSome = t.mean.isSome ∧ s.largest = t.largest

/-- Statistics that agree on everything but the values of floats, the run and the time. -/
structure Akin (a b : Aggregate Float) : Prop where
  count : a.count = b.count
  successful : a.successful = b.successful
  prompt : a.promptTokens.Akin b.promptTokens
  completion : a.completionTokens.Akin b.completionTokens
  total : a.totalTokens.Akin b.totalTokens
  latency : a.latency.mean.isSome = b.latency.mean.isSome
  toolCalls : a.toolCalls = b.toolCalls
  statusCodes : a.statusCodes = b.statusCodes
  finishReasons : a.finishReasons = b.finishReasons

/-! ### Its members -/

/-- The fields of saved statistics. -/
def stateFields : List Json.Field :=
  match shape with
  | .record _ _ fields => fields
  | _ => []

theorem shape_eq : shape = .record "ResponseStats" false stateFields := rfl

theorem nodup_stateFields : (stateFields.map Json.Field.key).Nodup := by
  decide

theorem nodup_members (a : Aggregate Float) : (a.members.map (·.1)).Nodup := nodup_stateFields

/-- A field for a float admits one, or null. -/
theorem takes_floatJson {f : Json.Field} (hnull : f.nullable = true) (hshape : f.shape = .float)
    (x : Option Float) : Takes f (floatJson x) := by
  cases x with
  | none => exact hnull
  | some x =>
    rw [floatJson]
    split
    · exact hnull
    · exact hshape

theorem takes_ofNat {f : Json.Field} (hnull : f.nullable = true) (hshape : f.shape = .u64)
    (n : Option Nat) : Takes f (Json.ofOption Json.nat n) := by
  cases n with
  | none => exact hnull
  | some n => exact hshape

theorem takes_ofText {f : Json.Field} (hnull : f.nullable = true) (hshape : f.shape = .text)
    (t : Option String) : Takes f (Json.ofOption Json.text t) := by
  cases t with
  | none => exact hnull
  | some t => exact hshape

/-- The members of written statistics are those that the fields expect, in their order. -/
theorem forall₂_members (a : Aggregate Float) :
    List.Forall₂ (fun f m => f.key = m.1 ∧ Takes f m.2) stateFields a.members :=
  .cons ⟨rfl, rfl⟩ <| .cons ⟨rfl, rfl⟩ <|
  .cons ⟨rfl, takes_floatJson rfl rfl _⟩ <| .cons ⟨rfl, takes_floatJson rfl rfl _⟩ <|
  .cons ⟨rfl, takes_floatJson rfl rfl _⟩ <| .cons ⟨rfl, takes_ofNat rfl rfl _⟩ <|
  .cons ⟨rfl, takes_ofNat rfl rfl _⟩ <| .cons ⟨rfl, takes_ofNat rfl rfl _⟩ <|
  .cons ⟨rfl, takes_floatJson rfl rfl _⟩ <| .cons ⟨rfl, takes_floatJson rfl rfl _⟩ <|
  .cons ⟨rfl, rfl⟩ <| .cons ⟨rfl, rfl⟩ <| .cons ⟨rfl, rfl⟩ <| .cons ⟨rfl, rfl⟩ <|
  .cons ⟨rfl, takes_ofText rfl rfl _⟩ .nil

/-- A moderate float is something statistics are written with. -/
theorem written_floatJson {x : Option Float} (h : ∀ m ∈ x, Moderate m) : Written (floatJson x) := by
  cases x with
  | none => exact .null
  | some x =>
    rw [floatJson]
    split
    · exact .null
    · exact .float (h x rfl)

theorem written_ofNat {n : Option Nat} (h : ∀ k ∈ n, k ≤ maxU64) :
    Written (Json.ofOption Json.nat n) := by
  cases n with
  | none => exact .null
  | some n => exact .nat (h n rfl)

theorem written_ofText (t : Option String) : Written (Json.ofOption Json.text t) := by
  cases t with
  | none => exact .null
  | some t => exact .text t

/-- All members of sound statistics can be read back. -/
theorem Sound.written {a : Aggregate Float} (h : Sound a) : ∀ m ∈ a.members, Written m.2 := by
  simp only [Aggregate.members, List.forall_mem_cons]
  exact ⟨.nat h.count, .nat h.successful, written_floatJson h.prompt.1,
    written_floatJson h.completion.1, written_floatJson h.total.1, written_ofNat h.prompt.2,
    written_ofNat h.completion.2, written_ofNat h.total.2, written_floatJson h.latency.1,
    written_floatJson h.latency.2, .nat h.toolCalls, .counts h.statusCodes,
    .counts h.finishReasons, .nat h.runId, written_ofText _, by simp⟩

/-! ### Its values -/

/-- A number is read back. -/
theorem Reread.asNat_eq {n : Nat} {w : Json} (h : Reread (.nat n) w) : Json.asNat w = n := by
  obtain ⟨-, rfl | ⟨x, y, hx, -⟩⟩ := h
  · rfl
  · cases hx

/-- A number or its absence is read back. -/
theorem Reread.asNat?_eq {n : Option Nat} {w : Json} (h : Reread (Json.ofOption Json.nat n) w) :
    Json.asNat? w = n := by
  obtain ⟨-, rfl | ⟨x, y, hx, -⟩⟩ := h
  · cases n <;> rfl
  · cases n <;> cases hx

/-- Counts by key are read back. -/
theorem Reread.countsOf_eq {d : Dict Nat} {w : Json} (h : Reread (countsJson d) w) :
    countsOf w = d := by
  obtain ⟨-, rfl | ⟨x, y, hx, -⟩⟩ := h
  · have hmembers : (Json.asMembers (countsJson d)).map (fun m => (m.1, Json.asNat m.2))
        = d.entries := by
      show (d.entries.map fun e => (e.1, Json.nat e.2)).map (fun m => (m.1, Json.asNat m.2)) = _
      rw [List.map_map]
      exact List.map_id _
    rw [countsOf, hmembers, Dict.ofList_entries]
  · cases hx

/-- A moderate float is read back as one, and nothing as nothing. -/
theorem Reread.asFloat? {x : Option Float} (hx : ∀ m ∈ x, Moderate m) {w : Json}
    (h : Reread (floatJson x) w) :
    x.isSome = (Json.asFloat? w).isSome ∧ ∀ m ∈ Json.asFloat? w, Moderate m := by
  have hw : ∀ m ∈ Json.asFloat? w, Moderate m := by
    obtain ⟨hwritten, -⟩ := h
    intro m hm
    cases hwritten with
    | float hy => exact Option.some.inj hm ▸ hy
    | _ => cases hm
  refine ⟨?_, hw⟩
  cases x with
  | none =>
    obtain ⟨-, rfl | ⟨x, y, hx, -⟩⟩ := h
    · rfl
    · cases hx
  | some x =>
    have hfinite := (hx x rfl).isFinite
    have hfloat : floatJson (some x) = .float x := by
      rw [floatJson, Decimal.not_isNaN_of_isFinite hfinite, Decimal.not_isInf_of_isFinite hfinite]
      rfl
    rw [hfloat] at h
    obtain ⟨-, rfl | ⟨x', y, -, rfl⟩⟩ := h <;> rfl

/-- A mean and a largest value are read back akin and within bounds. -/
theorem Reread.spread {s : Spread Float Nat} {v w : Json} (hs : s.Within (· ≤ maxU64))
    (hv : Reread (floatJson s.mean) v) (hw : Reread (Json.ofOption Json.nat s.largest) w) :
    s.Akin ⟨Json.asFloat? v, Json.asNat? w⟩ ∧
      Spread.Within (· ≤ maxU64) ⟨Json.asFloat? v, Json.asNat? w⟩ := by
  obtain ⟨hsome, hmean⟩ := hv.asFloat? hs.1
  have hlargest := hw.asNat?_eq
  exact ⟨⟨hsome, hlargest.symm⟩, hmean, hlargest.symm ▸ hs.2⟩

/-- **What is read back of statistics** is akin to them. -/
theorem akin_ofJson {a : Aggregate Float} (h : Sound a) {v : Json}
    (hv : ∀ m ∈ a.members, Reread m.2 (Json.field v m.1)) :
    Akin a (.ofJson v) ∧ Sound (.ofJson v) ∧ (Aggregate.ofJson v).runId = a.runId := by
  have hv (key : String) {u : Json} (hu : Assoc.get? key a.members = some u) :
      Reread u (Json.field v key) := hv _ (Assoc.mem_of_get? hu)
  have hcount := (hv "count" rfl).asNat_eq
  have hsuccessful := (hv "successful_count" rfl).asNat_eq
  have htoolCalls := (hv "tool_calls_count" rfl).asNat_eq
  have hrunId := (hv "run_id" rfl).asNat_eq
  have hstatusCodes := (hv "status_codes" rfl).countsOf_eq
  have hfinishReasons := (hv "finish_reason" rfl).countsOf_eq
  obtain ⟨hprompt, hprompt'⟩ := Reread.spread h.prompt (hv "avg_prompt_tokens" rfl)
    (hv "max_prompt_tokens" rfl)
  obtain ⟨hcompletion, hcompletion'⟩ := Reread.spread h.completion
    (hv "avg_completion_tokens" rfl) (hv "max_completion_tokens" rfl)
  obtain ⟨htotal, htotal'⟩ := Reread.spread h.total (hv "avg_total_tokens" rfl)
    (hv "max_total_tokens" rfl)
  obtain ⟨hmean, hlatency⟩ := (hv "avg_latency_ms" rfl).asFloat? h.latency.1
  obtain ⟨-, hlongest⟩ := (hv "max_latency_ms" rfl).asFloat? h.latency.2
  refine ⟨?_, ?_, hrunId⟩
  · exact ⟨hcount.symm, hsuccessful.symm, hprompt, hcompletion, htotal, hmean, htoolCalls.symm,
      hstatusCodes.symm, hfinishReasons.symm⟩
  · exact ⟨hcount.trans_le h.count, hsuccessful.trans_le h.successful, hprompt', hcompletion',
      htotal', ⟨hlatency, hlongest⟩, htoolCalls.trans_le h.toolCalls,
      (congrArg CountsFit hstatusCodes).mpr h.statusCodes,
      (congrArg CountsFit hfinishReasons).mpr h.finishReasons, hrunId.trans_le h.runId⟩

/-! ## The text -/

/-- An object holds statistics: for each of their members one that may have been read back, and
nothing that could not be skipped. -/
structure Holds (members : List (String × Json)) (a : Aggregate Float) : Prop where
  nodup : (members.map (·.1)).Nodup
  reread : ∀ m ∈ a.members, ∃ v, (m.1, v) ∈ members ∧ Reread m.2 v
  skips : ∀ m ∈ members, Skips (prettyOctets 1 m.2)

/-- A member of an object with different keys is found under its key. -/
theorem field_ofMembers {members : List (String × Json)} (h : (members.map (·.1)).Nodup)
    {key : String} {v : Json} (hv : (key, v) ∈ members) :
    Json.field (Json.ofMembers members) key = v := by
  have hget : Assoc.get? key (Assoc.ofList members) = some v :=
    (Assoc.get?_eq_some_iff (((Assoc.perm_ofList h).map _).nodup_iff.2 h)).2
      ((Assoc.perm_ofList h).mem_iff.2 hv)
  rw [Json.field, Json.ofMembers, Json.member?, hget]
  rfl

/-- Written statistics have a member for each field. -/
theorem exists_member (a : Aggregate Float) {f : Json.Field} (hf : f ∈ stateFields) :
    ∃ m ∈ a.members, f.key = m.1 ∧ Takes f m.2 := by
  have h := forall₂_members a
  generalize stateFields = fields at hf h
  generalize a.members = members at h
  induction h with
  | nil => cases hf
  | @cons g m fields members hm _ ih =>
    rcases List.mem_cons.1 hf with rfl | hf
    · exact ⟨m, by simp, hm⟩
    · obtain ⟨m, hmem, hm⟩ := ih hf
      exact ⟨m, by simp [hmem], hm⟩

/-- A member that holds what was read back of a field is read by that field. -/
theorem Holds.exists_value {members : List (String × Json)} {a : Aggregate Float}
    (h : Holds members a) (key : String) :
    ∃ w, ∀ f ∈ stateFields, f.key = key → ∀ v, (key, v) ∈ members →
      Reread v w ∧ Reads (fieldReader f) 1 (prettyOctets 1 v) w := by
  by_cases hkey : ∃ f ∈ stateFields, f.key = key
  · obtain ⟨f, hf, rfl⟩ := hkey
    obtain ⟨m, hm, hkey, htakes⟩ := exists_member a hf
    obtain ⟨v, hv, hreread⟩ := h.reread m hm
    obtain ⟨w, hw, hread⟩ := (htakes.reread hreread).exists_reads hreread.1 1
    refine ⟨w, fun g hg hgf v' hv' => ?_⟩
    obtain rfl := List.inj_on_of_nodup_map nodup_stateFields hg hf hgf
    rw [← hkey] at hv
    obtain rfl : v = v' := by
      rw [← Assoc.get?_eq_some_iff h.nodup] at hv hv'
      exact Option.some.inj (hv.symm.trans hv')
    exact ⟨hw, hread⟩
  · exact ⟨.null, fun f hf hfk => absurd ⟨f, hf, hfk⟩ hkey⟩

theorem mem_of_find? {fields : List Json.Field} {key : String} {f : Json.Field}
    (h : (fields.find? fun f => f.key == key) = some f) : f ∈ fields ∧ f.key = key :=
  ⟨List.mem_of_find?_eq_some h, by simpa using List.find?_some h⟩

/-- **An object that holds statistics is read** as statistics akin to them. -/
theorem Holds.exists_parse {members : List (String × Json)} {a : Aggregate Float} (ha : Sound a)
    (h : Holds members a) :
    ∃ b, Aggregate.parse (Text.encode (Json.object members).pretty) = .ok b ∧ Akin a b ∧ Sound b ∧
      b.runId = a.runId := by
  choose value hvalue using h.exists_value
  have hread := @Json.reads_record "ResponseStats" stateFields 1 0 members value
    (fun m hm f hf => (hvalue m.1 f (mem_of_find? hf).1 (mem_of_find? hf).2 m.2 hm).2)
    (fun m hm _ => h.skips m hm) h.nodup (by
      intro f hf
      obtain ⟨m, hm, hkey, -⟩ := exists_member a hf
      obtain ⟨v, hv, -⟩ := h.reread m hm
      rw [hkey]
      exact List.mem_map.2 ⟨_, hv, rfl⟩)
  set v := Json.ofMembers (stateFields.map fun f => (f.key, value f.key)) with hv
  have hfields : ∀ m ∈ a.members, Reread m.2 (Json.field v m.1) := by
    intro m hm
    obtain ⟨f, hf, hkey⟩ := List.mem_map.1
      (show m.1 ∈ stateFields.map Json.Field.key from List.mem_map_of_mem hm)
    obtain ⟨u, hu, hreread⟩ := h.reread m hm
    have hfield : Json.field v m.1 = value m.1 := by
      refine field_ofMembers ?_ (List.mem_map.2 ⟨f, hf, by rw [hkey]⟩)
      rw [List.map_map]
      exact nodup_stateFields
    rw [hfield]
    exact hreread.trans (hvalue m.1 f hf hkey u hu).1
  have htext : Text.encode (Json.object members).pretty
      = prettyOctets 0 (.object members) := Text.encode_ofList _
  have hparse : shape.parse (prettyOctets 0 (.object members)) = .ok v := by
    rw [← shape_eq] at hread
    have hread := hread (4 * (prettyOctets 0 (.object members)).length + 4) Json.maxDepth
      (prettyOctets 0 (.object members)) [] (Json.skipBlanks_prettyOctets 0 _) (by omega)
      (by decide) Json.ended_nil
    rw [shapeReader] at hread
    rw [Json.Shape.parse, hread]
    rfl
  refine ⟨.ofJson v, ?_, akin_ofJson ha hfields⟩
  rw [Aggregate.parse, Json.Shape.parseText, htext, hparse]
  rfl

/-- Statistics hold themselves. -/
theorem holds_members {a : Aggregate Float} (ha : Sound a) : Holds (Assoc.ofList a.members) a := by
  have hperm := Assoc.perm_ofList (nodup_members a)
  refine ⟨(hperm.map _).nodup_iff.2 (nodup_members a), fun m hm => ?_, fun m hm => ?_⟩
  · exact ⟨m.2, hperm.mem_iff.2 hm, .refl (ha.written m hm)⟩
  · exact (ha.written m (hperm.mem_iff.1 hm)).skips 1

/-- **Written statistics are read** as statistics akin to them. -/
theorem exists_parse {a : Aggregate Float} (ha : Sound a) :
    ∃ b, Aggregate.parse (Text.encode a.toJson.pretty) = .ok b ∧ Akin a b ∧ Sound b ∧
      b.runId = a.runId :=
  (holds_members ha).exists_parse ha

/-- Written statistics are also read as an object that holds them. -/
theorem exists_parseText {a : Aggregate Float} (ha : Sound a) :
    ∃ members, Json.parseText (Text.encode a.toJson.pretty) = .ok (.object members) ∧
      Assoc.Ordered members ∧ Holds members a := by
  have hperm := Assoc.perm_ofList (nodup_members a)
  have hwritten : ∀ m ∈ Assoc.ofList a.members, Written m.2 :=
    fun m hm => ha.written m (hperm.mem_iff.1 hm)
  have hvalues : ∀ m ∈ Assoc.ofList a.members, ∃ w, Reread m.2 w ∧
      Reads Json.readValue 1 (prettyOctets 1 m.2) w :=
    fun m hm => (hwritten m hm).exists_reads 1
  choose! value hreread hreads using hvalues
  set given := (Assoc.ofList a.members).map fun m => (m.1, value m) with hgiven
  have hordered : Assoc.Ordered given := by
    have := Assoc.ordered_ofList a.members
    rw [Assoc.Ordered, hgiven, List.pairwise_map]
    exact this
  have hread := @Json.reads_object 1 0 (Assoc.ofList a.members) given (by
    rw [hgiven, List.forall₂_map_right_iff, List.forall₂_same]
    exact fun m hm => ⟨rfl, hreads m hm⟩)
  rw [Assoc.ofList_of_ordered hordered] at hread
  refine ⟨given, ?_, hordered, ?_, fun m hm => ?_, fun m hm => ?_⟩
  · have htext : Text.encode a.toJson.pretty = prettyOctets 0 a.toJson := Text.encode_ofList _
    have hread := hread (2 * (prettyOctets 0 a.toJson).length + 2) Json.maxDepth
      (prettyOctets 0 a.toJson) [] (Json.skipBlanks_prettyOctets 0 _)
      (Nat.le_add_right_of_le (Nat.le_mul_of_pos_left _ (by decide))) (by decide) Json.ended_nil
    rw [htext, Json.parseText, Json.parse, hread]
    rfl
  · have hkeys : given.map (·.1) = (Assoc.ofList a.members).map (·.1) := by
      rw [hgiven, List.map_map]
      rfl
    rw [hkeys]
    exact (holds_members ha).nodup
  · have hmem := hperm.mem_iff.2 hm
    exact ⟨value m, List.mem_map_of_mem hmem, hreread m hmem⟩
  · obtain ⟨u, hu, rfl⟩ := List.mem_map.1 hm
    exact (hreread u hu).1.skips 1

/-- Sound statistics can be skipped. -/
theorem skips_toJson {a : Aggregate Float} (ha : Sound a) (indent : Nat) :
    Skips (prettyOctets indent a.toJson) :=
  Json.skips_object fun m hm =>
    (ha.written m ((Assoc.perm_ofList (nodup_members a)).mem_iff.1 hm)).skips _

/-- A member at another key changes nothing. -/
theorem Holds.insert {members : List (String × Json)} {a : Aggregate Float}
    (h : Holds members a) (hordered : Assoc.Ordered members) {key : String} {v : Json}
    (hkey : key ∉ a.members.map (·.1)) (hv : Skips (prettyOctets 1 v)) :
    Holds (Assoc.insert key v members) a := by
  have hnodup : ((Assoc.insert key v members).map (·.1)).Nodup :=
    Dict.nodup_keys ⟨_, hordered.insert key v⟩
  refine ⟨hnodup, fun m hm => ?_, fun m hm => ?_⟩
  · obtain ⟨u, hu, hreread⟩ := h.reread m hm
    refine ⟨u, ?_, hreread⟩
    have hne : key ≠ m.1 := by
      rintro rfl
      exact hkey (List.mem_map_of_mem hm)
    rw [← Assoc.get?_eq_some_iff hnodup, Assoc.get?_insert, if_neg hne,
      Assoc.get?_eq_some_iff h.nodup]
    exact hu
  · obtain ⟨k, u⟩ := m
    rw [← Assoc.get?_eq_some_iff hnodup, Assoc.get?_insert] at hm
    split at hm
    · exact Option.some.inj hm ▸ hv
    · exact h.skips (k, u) (Assoc.mem_of_get? hm)

end EvalProxy.Stats
