/-
# Header fields through their normal form

The fields that come out of a normal form are, for each name, the pieces of the text that the form
holds under it. For fields that a message can have, these are the values that went in.

Main statements: `Headers.values_ofMap`, `Headers.values_ofMap_normalize`.
-/
import EvalProxy.Http.Headers
import EvalProxy.Proofs.Dict
import EvalProxy.Proofs.Text.Lossy
namespace EvalProxy.Headers

/-- Every field has a value. -/
def Filled (h : Headers) : Prop := ∀ f ∈ h, f.2 ≠ []

/-- Fields that a message can have: names in lower case, each once and with a value, and values
without control characters. -/
structure Proper (h : Headers) : Prop where
  names : ∀ f ∈ h, name? f.1 = some f.1
  distinct : (h.map (·.1)).Nodup
  filled : h.Filled
  valid : ∀ f ∈ h, ∀ v ∈ f.2, isValue v = true

theorem proper_nil : Proper [] :=
  ⟨by simp, by simp, by simp [Filled], by simp⟩

theorem proper_cons {name : String} {vs : List Bytes} {rest : Headers} :
    Proper ((name, vs) :: rest) ↔
      name? name = some name ∧ name ∉ rest.map (·.1) ∧ vs ≠ [] ∧ (∀ v ∈ vs, isValue v = true) ∧
        rest.Proper := by
  constructor
  · intro h
    obtain ⟨hnew, hdistinct⟩ := List.nodup_cons.1 h.distinct
    refine ⟨h.names _ List.mem_cons_self, hnew, h.filled _ List.mem_cons_self,
      h.valid _ List.mem_cons_self, ⟨?_, hdistinct, ?_, ?_⟩⟩
    · exact fun f hf => h.names f (List.mem_cons_of_mem _ hf)
    · exact fun f hf => h.filled f (List.mem_cons_of_mem _ hf)
    · exact fun f hf => h.valid f (List.mem_cons_of_mem _ hf)
  · rintro ⟨hname, hnew, hvs, hvalid, hrest⟩
    refine ⟨?_, List.nodup_cons.2 ⟨hnew, hrest.distinct⟩, ?_, ?_⟩
    · exact List.forall_mem_cons.2 ⟨hname, hrest.names⟩
    · exact List.forall_mem_cons.2 ⟨hvs, hrest.filled⟩
    · exact List.forall_mem_cons.2 ⟨hvalid, hrest.valid⟩

/-! ## Names -/

/-- Only capital letters of ASCII have another lower case. -/
theorem toNat_toLower (c : Char) :
    c.toLower.toNat = if 65 ≤ c.toNat ∧ c.toNat ≤ 90 then c.toNat + 32 else c.toNat := by
  unfold Char.toLower
  split
  · rename_i h
    have hlow : 65 ≤ c.toNat := h.1
    have hhigh : c.toNat ≤ 90 := h.2
    rw [if_pos ⟨hlow, hhigh⟩]
    show (c.val + 32).toNat = c.val.toNat + 32
    rw [UInt32.toNat_add]
    have : c.val.toNat ≤ 90 := hhigh
    have : (32 : UInt32).toNat = 32 := rfl
    omega
  · rename_i h
    exact (if_neg h).symm

theorem toLower_toLower (c : Char) : c.toLower.toLower = c.toLower := by
  rw [← Char.toNat_inj, toNat_toLower, toNat_toLower]
  split
  · exact if_neg (by omega)
  · rfl

theorem isTokenChar_toLower {c : Char} (h : isTokenChar c = true) :
    isTokenChar c.toLower = true := by
  by_cases hupper : 65 ≤ c.toNat ∧ c.toNat ≤ 90
  -- a capital letter becomes a small one, and any other character stays
  · have hlower : c.toLower.isLower = true := by
      have hnat := toNat_toLower c
      rw [if_pos hupper] at hnat
      have hlow : 97 ≤ c.toLower.toNat := by omega
      have hhigh : c.toLower.toNat ≤ 122 := by omega
      exact Bool.and_eq_true_iff.2 ⟨decide_eq_true hlow, decide_eq_true hhigh⟩
    have hletter : c.toLower.isAlphanum = true :=
      Bool.or_eq_true_iff.2 (Or.inl (Bool.or_eq_true_iff.2 (Or.inr hlower)))
    rw [isTokenChar, hletter]
    rfl
  · have hsame : c.toLower = c := by
      rw [← Char.toNat_inj, toNat_toLower, if_neg hupper]
    rw [hsame]
    exact h

/-- A name in lower case is its own lower case. -/
theorem name?_of_name? {s name : String} (h : name? s = some name) : name? name = some name := by
  unfold name? at h
  split at h
  · rename_i hs
    simp only [Bool.and_eq_true, List.all_eq_true, Bool.not_eq_true', decide_eq_true_eq] at hs
    obtain ⟨⟨htoken, hne⟩, hlength⟩ := hs
    obtain rfl := Option.some.inj h
    rw [name?, if_pos]
    -- lowering twice is lowering once
    · rw [String.toList_ofList, List.map_map]
      simp only [Function.comp_def, toLower_toLower]
    · simp only [Bool.and_eq_true, List.all_eq_true, Bool.not_eq_true', decide_eq_true_eq]
      refine ⟨⟨?_, ?_⟩, ?_⟩
      · intro c hc
        rw [String.toList_ofList] at hc
        obtain ⟨d, hd, rfl⟩ := List.mem_map.1 hc
        exact isTokenChar_toLower (htoken d hd)
      · simpa [String.isEmpty_iff] using hne
      · simpa [String.length_toList] using hlength
  · simp at h

/-! ## Values as text -/

/-- A value as it is read back from text: octets that are no UTF-8 are replaced. -/
def readable (v : Bytes) : Bytes := Text.encode (Text.lossy v)

/-- Replacing octets that are no UTF-8 makes no control character. -/
theorem isValue_readable {v : Bytes} (h : isValue v = true) : isValue (readable v) = true := by
  rw [isValue, List.all_eq_true] at h ⊢
  rw [readable, Text.encode_eq_octets]
  refine Text.forall_mem_octets ?_ ?_
  -- an ASCII character of the text is an octet of the value, and so no control
  · intro c hc hascii
    exact h _ (Text.mem_of_mem_lossy hc hascii)
  · intro b hb
    have hne : b ≠ 0x7F := by
      rintro rfl
      exact absurd hb (by decide)
    have hlow : 0x20 ≤ b := UInt8.le_trans (by decide) hb
    simp [isValueOctet, hne, hlow]

/-- No value holds the separator. -/
theorem separator_notMem_lossy {v : Bytes} (h : isValue v = true) :
    separator ∉ (Text.lossy v).toList := by
  intro hmem
  rw [isValue, List.all_eq_true] at h
  exact absurd (h _ (Text.mem_of_mem_lossy hmem (by decide))) (by decide)

/-! ## Joined texts -/

/-- A text before a separator is split off. -/
theorem splitChars_append (t rest : List Char) (h : separator ∉ t) :
    splitChars (t ++ separator :: rest) = t :: splitChars rest := by
  induction t with
  | nil => rw [List.nil_append, splitChars, if_pos rfl]
  | cons c t ih =>
    obtain ⟨hc, ht⟩ := not_or.1 (mt List.mem_cons.2 h)
    rw [List.cons_append, splitChars, if_neg (Ne.symm hc), ih ht]

theorem splitChars_of_notMem (t : List Char) (h : separator ∉ t) : splitChars t = [t] := by
  induction t with
  | nil => rfl
  | cons c t ih =>
    obtain ⟨hc, ht⟩ := not_or.1 (mt List.mem_cons.2 h)
    rw [splitChars, if_neg (Ne.symm hc), ih ht]

/-- Cutting undoes joining, if there is something to join and no text holds the separator. -/
theorem splitChars_joinChars (t : List Char) (ts : List (List Char))
    (h : ∀ u ∈ t :: ts, separator ∉ u) : splitChars (joinChars (t :: ts)) = t :: ts := by
  induction ts generalizing t with
  | nil => exact splitChars_of_notMem t (h t (by simp))
  | cons u ts ih =>
    have hrest := ih u fun x hx => h x (List.mem_cons_of_mem _ hx)
    rw [joinChars, splitChars_append t _ (h t (by simp)), hrest]
    exact List.cons_ne_nil _ _

/-- The pieces of joined values are the values as they are read back from text. -/
theorem pieces_joined {vs : List Bytes} (hne : vs ≠ []) (h : ∀ v ∈ vs, isValue v = true) :
    pieces (joined vs) = vs.map readable := by
  obtain ⟨v, vs, rfl⟩ := List.exists_cons_of_ne_nil hne
  -- no value holds the separator, so cutting finds the values again
  have hsplit := splitChars_joinChars (Text.lossy v).toList
    (vs.map fun v => (Text.lossy v).toList) (by
      intro u hu
      rw [← List.map_cons (f := fun v => (Text.lossy v).toList)] at hu
      obtain ⟨x, hx, rfl⟩ := List.mem_map.1 hu
      exact separator_notMem_lossy (h x hx))
  rw [pieces, joined, String.toList_ofList, List.map_cons, hsplit]
  simp [readable, Function.comp_def]

/-! ## Fields of a normal form -/

/-- Under filled fields, a name stands exactly if it has values. -/
theorem contains_iff_values_ne_nil {h : Headers} (hfilled : Filled h) (name : String) :
    h.contains name = true ↔ h.values name ≠ [] := by
  induction h with
  | nil => simp [contains, values]
  | cons f rest ih =>
    obtain ⟨n, vs⟩ := f
    have hrest : Filled rest := fun f hf => hfilled f (List.mem_cons_of_mem _ hf)
    by_cases heq : n = name
    -- this field decides, and it has values
    · have hvs : vs ≠ [] := hfilled (n, vs) List.mem_cons_self
      simp [contains, values, heq, hvs]
    · rw [values, if_neg heq, ← ih hrest]
      simp [contains, heq]

/-- The fields with the values of a name changed, or with a value under it if it has none. -/
def change (h : Headers) (name : String) (value : Bytes) (f : List Bytes → List Bytes) : Headers :=
  match h with
  | [] => [(name, [value])]
  | (n, vs) :: rest => if n = name then (n, f vs) :: rest else (n, vs) :: change rest name value f

/-- Adding a value is a change that puts it behind the others. -/
theorem append_eq_change (h : Headers) (name : String) (value : Bytes) :
    h.append name value = h.change name value (· ++ [value]) := by
  induction h with
  | nil => rfl
  | cons f rest ih => rw [Headers.append, change, ih]

/-- Setting a value is a change that leaves only this one. -/
theorem set_eq_change (h : Headers) (name : String) (value : Bytes) :
    h.set name value = h.change name value fun _ => [value] := by
  induction h with
  | nil => rfl
  | cons f rest ih => rw [Headers.set, change, ih]

/-- A change adds no name but its own. -/
theorem mem_names_change {h : Headers} {name name' : String} {value : Bytes}
    {f : List Bytes → List Bytes} (hmem : name' ∈ (h.change name value f).map (·.1)) :
    name' = name ∨ name' ∈ h.map (·.1) := by
  induction h with
  | nil => simpa [change] using hmem
  | cons field rest ih =>
    rw [change] at hmem
    split at hmem
    · exact Or.inr hmem
    · rcases List.mem_cons.1 hmem with rfl | hmem
      · exact Or.inr List.mem_cons_self
      · rcases ih hmem with heq | hrest
        · exact Or.inl heq
        · exact Or.inr (List.mem_cons_of_mem _ hrest)

/-- A message can have changed values in place of those that a name has. -/
theorem Proper.change {h : Headers} (hproper : h.Proper) {name : String} {value : Bytes}
    (hname : name? name = some name) (hvalue : isValue value = true)
    {f : List Bytes → List Bytes} (hfilled : ∀ vs, f vs ≠ [])
    (hvalid : ∀ vs, (∀ v ∈ vs, isValue v = true) → ∀ v ∈ f vs, isValue v = true) :
    (h.change name value f).Proper := by
  induction h with
  | nil => exact proper_cons.2 ⟨hname, by simp, by simp, by simpa using hvalue, proper_nil⟩
  | cons field rest ih =>
    obtain ⟨n, vs⟩ := field
    obtain ⟨hn, hnew, hvs, hvalues, hrest⟩ := proper_cons.1 hproper
    rw [Headers.change]
    split
    · exact proper_cons.2 ⟨hn, hnew, hfilled vs, hvalid vs hvalues, hrest⟩
    · rename_i hne
      refine proper_cons.2 ⟨hn, ?_, hvs, hvalues, ih hrest⟩
      -- the fields after this one gain no name but the one that is changed
      intro hmem
      rcases mem_names_change hmem with heq | hold
      · exact hne heq
      · exact hnew hold

/-- A message can have one more value. -/
theorem Proper.append {h : Headers} (hproper : h.Proper) {name : String} {value : Bytes}
    (hname : name? name = some name) (hvalue : isValue value = true) :
    (h.append name value).Proper := by
  rw [append_eq_change]
  apply hproper.change hname hvalue
  · intro vs
    simp
  · intro vs hvs v hv
    rcases List.mem_append.1 hv with hv | hv
    · exact hvs v hv
    · rw [List.mem_singleton.1 hv]
      exact hvalue

/-- A message can have another value in place of those of a name. -/
theorem Proper.set {h : Headers} (hproper : h.Proper) {name : String} {value : Bytes}
    (hname : name? name = some name) (hvalue : isValue value = true) :
    (h.set name value).Proper := by
  rw [set_eq_change]
  apply hproper.change hname hvalue
  · intro vs
    simp
  · intro vs _ v hv
    rw [List.mem_singleton.1 hv]
    exact hvalue

/-- Proper fields stay so when values are added under a name. -/
theorem Proper.appendAll {h : Headers} (hproper : h.Proper) {name : String}
    (hname : name? name = some name) (vs : List Bytes) : (h.appendAll name vs).Proper := by
  unfold Headers.appendAll
  induction vs generalizing h with
  | nil => exact hproper
  | cons v vs ih =>
    rw [List.foldl_cons]
    refine ih ?_
    split
    · rename_i hvalue
      exact hproper.append hname hvalue
    · exact hproper

/-- Of the values that are added under a name those that can be values are there. -/
theorem values_appendAll (h : Headers) (name name' : String) (vs : List Bytes) :
    values (appendAll h name vs) name'
      = values h name' ++ if name = name' then vs.filter isValue else [] := by
  unfold appendAll
  induction vs generalizing h with
  | nil => simp
  | cons v vs ih =>
    rw [List.foldl_cons, ih, List.filter_cons]
    by_cases hv : isValue v = true
    · rw [if_pos hv, if_pos hv, values_append]
      by_cases heq : name = name' <;> simp [heq]
    · rw [if_neg hv, if_neg hv]

/-- The values that an entry of a normal form gives a name. -/
def entryValues (e : String × String) (name : String) : List Bytes :=
  if name? e.1 = some name then (pieces e.2).filter isValue else []

/-- The fields with those that an entry of a normal form holds. -/
def addEntry (h : Headers) (e : String × String) : Headers :=
  match name? e.1 with
  | some name => appendAll h name (pieces e.2)
  | none => h

/-- An entry of a normal form adds the values that it gives a name. -/
theorem values_addEntry (h : Headers) (e : String × String) (name : String) :
    values (addEntry h e) name = values h name ++ entryValues e name := by
  rw [addEntry, entryValues]
  cases hname : name? e.1 with
  | none => simp
  | some n =>
    rw [values_appendAll]
    by_cases heq : n = name <;> simp [heq]

/-- **A name gets the pieces of every text that the normal form holds under it**, without those that
no field can have. -/
theorem values_ofMap (map : Dict String) (name : String) :
    (ofMap map).values name = map.entries.flatMap fun e => entryValues e name := by
  -- the fields are put together entry by entry, each adding its own pieces
  have hfold (es : List (String × String)) (h : Headers) :
      values (es.foldl addEntry h) name
        = values h name ++ es.flatMap fun e => entryValues e name := by
    induction es generalizing h with
    | nil => simp
    | cons e es ih =>
      rw [List.foldl_cons, ih, values_addEntry, List.flatMap_cons, List.append_assoc]
  exact hfold map.entries []

/-- **Whatever text a normal form holds, a message can have the fields that it gives.** -/
theorem proper_ofMap (map : Dict String) : (ofMap map).Proper := by
  have hfold (es : List (String × String)) (h : Headers) (hproper : h.Proper) :
      Proper (es.foldl addEntry h) := by
    induction es generalizing h with
    | nil => exact hproper
    | cons e es ih =>
      rw [List.foldl_cons]
      refine ih _ ?_
      unfold addEntry
      cases hname : name? e.1 with
      | none => exact hproper
      | some name => exact hproper.appendAll (name?_of_name? hname) _
  exact hfold map.entries [] proper_nil

/-- In a normal form whose names are all in lower case, only the entry of a name gives it values. -/
theorem flatMap_entryValues {es : List (String × String)} (hnames : ∀ e ∈ es, name? e.1 = some e.1)
    (hdistinct : (es.map (·.1)).Nodup) (name : String) :
    (es.flatMap fun e => entryValues e name)
      = ((Assoc.get? name es).map fun t => (pieces t).filter isValue).getD [] := by
  induction es with
  | nil => rfl
  | cons e es ih =>
    obtain ⟨n, t⟩ := e
    obtain ⟨hn, hes⟩ := List.nodup_cons.1 hdistinct
    have hname : name? n = some n := hnames (n, t) List.mem_cons_self
    rw [List.flatMap_cons, ih (fun e he => hnames e (List.mem_cons_of_mem _ he)) hes, entryValues,
      Assoc.get?, hname]
    by_cases heq : n = name
    -- no later entry has the name again
    · subst heq
      have hnone : Assoc.get? n es = none := by
        refine Assoc.get?_eq_none_of_forall_ne fun e he heq => hn ?_
        exact List.mem_map.2 ⟨e, he, heq⟩
      simp [hnone]
    · simp [heq]

/-! ## The way there and back -/

/-- A normal form has for a name its values in one text. -/
theorem get?_normalize {h : Headers} (hdistinct : (h.map (·.1)).Nodup) (name : String) :
    h.normalize.get? name = (Assoc.get? name h).map joined := by
  have hmap : (h.map fun f => (f.1, joined f.2)).map (·.1) = h.map (·.1) := by
    simp [Function.comp_def]
  rw [normalize, Dict.get?_ofList (by rw [hmap]; exact hdistinct)]
  induction h with
  | nil => rfl
  | cons f h ih =>
    obtain ⟨n, vs⟩ := f
    by_cases heq : n = name
    · simp [Assoc.get?, heq]
    · simp only [List.map_cons, Assoc.get?, heq, if_false]
      exact ih (List.nodup_cons.1 hdistinct).2 (by simp [Function.comp_def])

/-- The values of a name are those listed under it, or none. -/
theorem values_eq_get? (h : Headers) (name : String) :
    h.values name = (Assoc.get? name h).getD [] := by
  induction h with
  | nil => rfl
  | cons f h ih =>
    obtain ⟨n, vs⟩ := f
    by_cases heq : n = name <;> simp [values, Assoc.get?, heq, ih]

/-- Every key of a normal form is a name in lower case. -/
theorem name?_of_mem_normalize {h : Headers} (hproper : h.Proper) :
    ∀ e ∈ h.normalize.entries, name? e.1 = some e.1 := by
  intro e he
  -- a key of the normal form is the name of a field
  have hkey : e.1 ∈ h.normalize.keys := List.mem_map.2 ⟨e, he, rfl⟩
  rw [Dict.mem_keys_iff, get?_normalize hproper.distinct, Option.isSome_map,
    Assoc.isSome_get?_iff] at hkey
  obtain ⟨f, hf, heq⟩ := List.mem_map.1 hkey
  rw [← heq]
  exact hproper.names f hf

/-- **Fields that a message can have come back from their normal form** with the same values in the
same order, each as it is read back from text. -/
theorem values_ofMap_normalize {h : Headers} (hproper : h.Proper) (name : String) :
    (ofMap h.normalize).values name = (h.values name).map readable := by
  rw [values_ofMap, flatMap_entryValues (name?_of_mem_normalize hproper) h.normalize.nodup_keys]
  rw [show Assoc.get? name h.normalize.entries = h.normalize.get? name from rfl,
    get?_normalize hproper.distinct, values_eq_get?]
  cases hget : Assoc.get? name h with
  | none => rfl
  | some vs =>
    -- a message can have these values, so the text that joins them gives them all back
    have hmem : (name, vs) ∈ h := Assoc.mem_of_get? hget
    have hvalid : ∀ v ∈ vs, isValue v = true := hproper.valid _ hmem
    simp only [Option.map_some, Option.getD_some]
    rw [pieces_joined (hproper.filled _ hmem) hvalid, List.filter_eq_self]
    intro v hv
    obtain ⟨x, hx, rfl⟩ := List.mem_map.1 hv
    exact isValue_readable (hvalid x hx)

end EvalProxy.Headers
